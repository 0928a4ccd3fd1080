import TelemetrySearch.Proofs.FormulaShape
import TelemetrySearch.Search

/-!
# The condition of a term

What a term that compiles has become, for each way in which it can compile: a test of the body
(`Field.exists_search_eq`), a test of a field against one literal (`Field.exists_of_compare`) or against a list
(`Field.exists_of_compareValue_list`), and the condition that nothing meets (`Search.cases_of_term_keyed`).

A test is a text and one argument. The text depends on the field, on the relation, and on whether the literal is quoted
and has a wildcard.
-/

namespace TelemetrySearch

namespace Field

/-- A test of the body has one argument. -/
theorem exists_search_eq (f : Field) (l : Literal) :
    ∃ arg, f.search l =
      ⟨if l.hasWildcard || l.quoted then f.expression ++ " ILIKE ?"
        else "hasTokenCaseInsensitive(" ++ f.expression ++ ", ?)", [arg]⟩ := by
  cases hw : l.hasWildcard with
  | true => exact ⟨_, by rw [search, hw]; rfl⟩
  | false =>
    cases hq : l.quoted with
    | true => exact ⟨_, by rw [search, hw, hq]; rfl⟩
    | false => exact ⟨_, by rw [search, hw, hq]; rfl⟩

/-- What stands behind the field in a test against a literal. -/
def comparison (r : Relation) (wildcard : Bool) : String :=
  if wildcard then " ILIKE ?" else " " ++ r.symbol ++ " ?"

variable {f : Field} {r : Relation} {c : Condition}

/-- A test against one literal has the arguments of the field and one for the literal. -/
theorem exists_of_compare {l : Literal} (h : f.compare r l = .ok c) :
    ∃ arg, c = ⟨f.operand r.isOrdering l.hasWildcard ++ comparison r l.hasWildcard, f.args ++ [arg]⟩ := by
  rw [compare] at h
  cases hw : l.hasWildcard with
  | true =>
    rw [hw, if_pos rfl] at h
    split at h
    · cases h
    · cases h
      exact ⟨_, rfl⟩
  | false =>
    rw [hw, if_neg Bool.false_ne_true] at h
    split at h
    · cases h
    · cases harg : f.argument l with
      | error fault => rw [harg] at h; cases h
      | ok arg =>
        rw [harg] at h
        cases h
        refine ⟨arg, ?_⟩
        rw [comparison, if_neg Bool.false_ne_true, ← String.append_assoc, ← String.append_assoc]

/-- A test against a list asks for one of the tests against its literals. -/
theorem exists_of_compareValue_list {ls : List Literal} (h : f.compareValue r (.list ls) = .ok c) :
    ∃ cs, ls.map (f.compare r) = cs.map .ok ∧ c = .anyOf cs := by
  rw [compareValue] at h
  cases hcs : ls.mapM (f.compare r) with
  | error fault => rw [hcs] at h; cases h
  | ok cs =>
    rw [hcs] at h
    cases h
    exact ⟨cs, Formula.mapM_eq_ok_iff.1 hcs, rfl⟩

end Field

/-- A term with a key tests the field of the key, or nothing if there is none. -/
theorem Search.cases_of_term_keyed {s : Search} {key : String} {r : Relation} {value : Value} {c : Condition}
    (h : s.term (.keyed key r value) = .ok c) :
    (∃ f d, s.table.resolve key = some f ∧ f.compareValue r.base value = .ok d ∧ c = r.finish d) ∨
      (s.table.resolve key = none ∧ c = r.finish .never) := by
  rw [term] at h
  split at h
  · next f hf =>
    split at h
    · next d hd =>
      cases h
      exact .inl ⟨f, d, hf, hd, rfl⟩
    · cases h
  · next hnone =>
    split at h
    · cases h
    · cases h
      exact .inr ⟨hnone, rfl⟩

end TelemetrySearch
