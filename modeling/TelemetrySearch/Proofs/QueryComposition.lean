import TelemetrySearch.Proofs.FormulaShape
import TelemetrySearch.Proofs.Lexing
import TelemetrySearch.Proofs.QueryMeaning

/-!
# Queries in parentheses are units

A query in parentheses can be put anywhere. Its tokens are those of the query alone (`tokenize_enclosed`,
`tokenize_joined`), so it is an operand of the query around it; the formula of that operand is the formula of the query,
because formulas of queries are in normal form (`Query.normal_formula`).

`formula?_groups` puts this together for one query in parentheses and for two of them.
-/

namespace TelemetrySearch

/-! ## Formulas of trees are normal -/

mutual

theorem Operand.normal_formula : ∀ o : Operand, o.formula.Normal
  | .term t _ => .leaf t
  | .group first more =>
    .ofOperands (List.cons_ne_nil _ _) (List.forall_mem_cons.2 ⟨Operand.normal_formula first, Chain.normal_row more⟩)

theorem Chain.normal_row : ∀ (c : Chain), ∀ p ∈ c.row, p.2.Normal
  | .nil => List.forall_mem_nil _
  | .cons _ o more => List.forall_mem_cons.2 ⟨Operand.normal_formula o, Chain.normal_row more⟩

end

/-- **The formula of a query is in normal form.** -/
theorem Query.normal_formula (q : Query) : q.formula.Normal := (Operand.group q.first q.more).normal_formula

namespace Formula

variable {α : Type}

/-- A normal formula as the only operand. -/
theorem ofOperands_singleton {f : Formula α} (hf : f.Normal) (c : Connective) : ofOperands [(c, f)] = f := by
  rw [ofOperands, runs, List.map_singleton, join_singleton hf, join_singleton hf]

/-- Two normal formulas as operands. -/
theorem ofOperands_pair {f g : Formula α} (hf : f.Normal) (hg : g.Normal) (k c : Connective) :
    ofOperands [(k, f), (c, g)] = join c [f, g] := by
  cases c with
  | or =>
    have hruns : runs [(k, f), (.or, g)] = [[f], [g]] := rfl
    rw [ofOperands, hruns, List.map_cons, List.map_singleton, join_singleton hf, join_singleton hg]
  | and =>
    have hruns : runs [(k, f), (.and, g)] = [[f, g]] := rfl
    have hjoin : (join .and [f, g]).Normal := .join (by simp) (by simp [hf, hg])
    rw [ofOperands, hruns, List.map_singleton, join_singleton hjoin]

end Formula

/-! ## Trees with a query as an operand -/

namespace Query

/-- The query in parentheses. -/
def operand (q : Query) : Operand := .group q.first q.more

/-- The query that is another one in parentheses. -/
def enclosed (q : Query) : Query := ⟨q.operand, .nil⟩

/-- The query of two others in parentheses, with the connective between them that is written there. -/
def joined (link : Option Connective) (q q' : Query) : Query := ⟨q.operand, .cons link q'.operand .nil⟩

theorem tokens_enclosed (q : Query) : q.enclosed.tokens = .leftParen :: (q.tokens ++ [.rightParen]) := by
  simp [enclosed, operand, tokens, Operand.tokens, Chain.tokens]

theorem tokens_joined (link : Option Connective) (q q' : Query) :
    (joined link q q').tokens =
      .leftParen :: (q.tokens ++ .rightParen :: ((link.map Token.keyword).toList ++ q'.enclosed.tokens)) := by
  simp [joined, enclosed, operand, tokens, Operand.tokens, Chain.tokens]

theorem formula_enclosed (q : Query) : q.enclosed.formula = q.formula :=
  Formula.ofOperands_singleton q.normal_formula .and

theorem formula_joined (link : Option Connective) (q q' : Query) :
    (joined link q q').formula = .join (link.getD .and) [q.formula, q'.formula] :=
  Formula.ofOperands_pair q.normal_formula q'.normal_formula .and (link.getD .and)

end Query

/-! ## Texts with a query in parentheses -/

/-- What stands between two queries that are in parentheses. -/
def between : Option Connective → String
  | none => ") ("
  | some c => ") " ++ c.keyword ++ " ("

theorem tokenize_enclosed {query : String} {q : Query} (h : tokenize query = .ok q.tokens) :
    tokenize ("(" ++ query ++ ")") = .ok q.enclosed.tokens := by
  rw [tokenize_eq_ok_iff] at h ⊢
  rw [q.tokens_enclosed]
  simpa using h.enclose (.nil rfl)

theorem tokenize_joined (link : Option Connective) {query query' : String} {q q' : Query}
    (h : tokenize query = .ok q.tokens) (h' : tokenize query' = .ok q'.tokens) :
    tokenize ("(" ++ query ++ between link ++ query' ++ ")") = .ok (Query.joined link q q').tokens := by
  rw [tokenize_eq_ok_iff] at h h' ⊢
  rw [Query.tokens_joined]
  have hsecond : Lexes 0 none (' ' :: '(' :: (query'.toList ++ [')'])) q'.enclosed.tokens := by
    rw [q'.tokens_enclosed]
    exact (h'.enclose (.nil rfl)).of_skipBlanks_eq rfl
  cases link with
  | none => simpa [between] using h.enclose hsecond
  | some c =>
    have hkeyword : Lexes 0 none (' ' :: (c.keyword.toList ++ ' ' :: '(' :: (query'.toList ++ [')'])))
        (.keyword c :: q'.enclosed.tokens) := by
      cases c <;> exact .cons rfl rfl hsecond
    simpa [between] using h.enclose hkeyword

/-- The groups of the query nest at most `n` deep. -/
def NestsWithin (n : Nat) (query : String) : Prop := ∃ q : Query, tokenize query = .ok q.tokens ∧ q.depth ≤ n

namespace Search

variable {s : Search}

/-- Two queries in parentheses compile to their formulas, joined by the connective between them. -/
theorem formula?_joined (link : Option Connective) {query query' : String} {q q' : Query} {e e' : Formula Condition}
    (hq : tokenize query = .ok q.tokens) (hq' : tokenize query' = .ok q'.tokens) (hd : q.depth + 1 ≤ maxDepth)
    (hd' : q'.depth + 1 ≤ maxDepth) (he : q.formula.traverse s.term = .ok e)
    (he' : q'.formula.traverse s.term = .ok e') :
    s.formula? ("(" ++ query ++ between link ++ query' ++ ")") =
      .ok (some (.join (link.getD .and) [e, e'])) := by
  have hdepth : (Query.joined link q q').depth ≤ maxDepth := by
    simp only [Query.joined, Query.operand, Query.depth, Operand.depth, Chain.depth] at hd hd' ⊢
    omega
  have htraverse : (Query.joined link q q').formula.traverse s.term = .ok (.join (link.getD .and) [e, e']) := by
    rw [Formula.traverse_eq_ok_iff] at he he' ⊢
    rw [Query.formula_joined, Formula.map_join, Formula.map_join, List.map_cons, List.map_singleton, he, he',
      List.map_cons, List.map_singleton]
  rw [s.formula?_of_tokenize (tokenize_joined link hq hq') hdepth, htraverse]
  rfl

/-- **Queries in parentheses compose as units.** A query in parentheses compiles to what the query compiles to. Two of
them compile to the two formulas joined: by `OR` where it stands between them, and by `AND` where `AND` or nothing
does. -/
theorem formula?_groups (s : Search) {query query' : String} {e e' : Formula Condition}
    (h : s.formula? query = .ok (some e)) (h' : s.formula? query' = .ok (some e'))
    (hn : NestsWithin (maxDepth - 1) query) (hn' : NestsWithin (maxDepth - 1) query') :
    s.formula? ("(" ++ query ++ ")") = .ok (some e) ∧
      s.formula? ("(" ++ query ++ ") OR (" ++ query' ++ ")") = .ok (some (.join .or [e, e'])) ∧
      s.formula? ("(" ++ query ++ ") AND (" ++ query' ++ ")") = .ok (some (.join .and [e, e'])) ∧
      s.formula? ("(" ++ query ++ ") (" ++ query' ++ ")") = .ok (some (.join .and [e, e'])) := by
  obtain ⟨q, hq, hd⟩ := hn
  obtain ⟨q', hq', hd'⟩ := hn'
  have hdepth : q.depth + 1 ≤ maxDepth := Nat.add_le_of_le_sub (by decide) hd
  have hdepth' : q'.depth + 1 ≤ maxDepth := Nat.add_le_of_le_sub (by decide) hd'
  have he := traverse_of_formula? hq (by omega) h
  have he' := traverse_of_formula? hq' (by omega) h'
  have hjoined := fun link => formula?_joined link hq hq' hdepth hdepth' he he'
  refine ⟨?_, ?_, ?_, ?_⟩
  · have henclosed : q.enclosed.depth ≤ maxDepth := by
      simp only [Query.enclosed, Query.operand, Query.depth, Operand.depth, Chain.depth] at hdepth ⊢
      omega
    rw [s.formula?_of_tokenize (tokenize_enclosed hq) henclosed, q.formula_enclosed, he]
    rfl
  · simpa [between, Connective.keyword] using hjoined (some .or)
  · simpa [between, Connective.keyword] using hjoined (some .and)
  · simpa [between, Connective.keyword] using hjoined none

/-- The second query has its own `OR`, which is merged, and a phrase with a parenthesis in it. -/
theorem formula?_groups_nested_or :
    (⟨.traces, .reject⟩ : Search).formula? ("(" ++ "a (b)" ++ ") OR (" ++ "level=\"x (\" or c!" ++ ")") =
      .ok (some (.group
        [.group
          [.leaf ⟨"hasTokenCaseInsensitive(SpanName, ?)", ["a"]⟩, .leaf ⟨"hasTokenCaseInsensitive(SpanName, ?)", ["b"]⟩]
          [.and],
         .leaf ⟨"toString(Level) = ?", ["x ("]⟩, .leaf ⟨"hasTokenCaseInsensitive(SpanName, ?)", ["c!"]⟩]
        [.or, .or])) := by
  let q : Query :=
    ⟨.term (.body (.word "a")) trivial, .cons none (.group (.term (.body (.word "b")) trivial) .nil) .nil⟩
  let q' : Query :=
    ⟨.term (.keyed "level" .eq (.single (.phrase "x ("))) trivial,
      .cons (some .or) (.term (.body (.word "c!")) trivial) .nil⟩
  have hq : tokenize "a (b)" = .ok q.tokens :=
    tokenize_eq_ok_iff.2 (.cons rfl rfl (.cons rfl rfl (.cons rfl rfl (.cons rfl rfl (.nil rfl)))))
  have hq' : tokenize "level=\"x (\" or c!" = .ok q'.tokens :=
    tokenize_eq_ok_iff.2 (.cons rfl rfl (.cons rfl rfl (.cons rfl rfl (.cons rfl rfl (.cons rfl rfl (.nil rfl))))))
  have he := formula?_of_tokenize ⟨.traces, .reject⟩ hq (by decide)
  have he' := formula?_of_tokenize ⟨.traces, .reject⟩ hq' (by decide)
  exact (formula?_groups ⟨.traces, .reject⟩ he he' ⟨q, hq, by decide⟩ ⟨q', hq', by decide⟩).2.1

end Search

end TelemetrySearch
