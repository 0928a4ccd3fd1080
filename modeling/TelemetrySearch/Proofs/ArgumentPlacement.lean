import Mathlib.Control.Monad.Basic
import TelemetrySearch.Proofs.Lexing
import TelemetrySearch.Proofs.LiteralScan
import TelemetrySearch.Proofs.QueryMeaning
import TelemetrySearch.Proofs.Rendering
import TelemetrySearch.Proofs.TermCondition

/-!
# Every argument stays with its own leaf

A compiled query collects its text and its arguments apart: the text is written from the tree, and the arguments are
those of the leaves, one leaf after the other.

* `Fills cs args out`: the text `cs` uses up `args` and becomes `out`, whatever stands around it. Such texts can be put
  side by side (`Fills.append`), so the text of a tree is one if those of its leaves are (`Formula.fills_condition`).
* `Fits text args`: the text has no quote and one placeholder for each argument; it then fills (`Fits.exists_fills`).
  If no column is named with a `?` or a quote, every condition that a search makes fits (`Search.fits_term`).
* `Search.render_condition`: to put the arguments into a compiled query is to put them into its leaves.
-/

namespace TelemetrySearch

namespace Sql

/-! ## Texts that use up their arguments -/

/-- Outside literals, `cs` uses up the arguments `args` and becomes `out`, whatever stands around it. -/
def Fills (cs : List Char) (args : List String) (out : List Char) : Prop :=
  ∀ supplied more written rest,
    fill supplied .code (args ++ more) written (cs ++ rest) = fill supplied .code more (out.reverse ++ written) rest

theorem Fills.nil : Fills [] [] [] := fun _ _ _ _ => rfl

/-- A `?` outside literals takes one argument. -/
theorem Fills.placeholder (arg : String) : Fills ['?'] [arg] (quoteChars arg.toList) :=
  fun supplied more written rest => fill_placeholder_cons supplied more written rest arg

/-- A character that neither is a placeholder nor opens a literal stays as it is. -/
theorem Fills.char {c : Char} (hp : c ≠ '?') (hq : c ≠ '\'') : Fills [c] [] [c] := by
  intro supplied more written rest
  rw [List.nil_append, List.singleton_append, fill_cons _ _ _ _ fun h => hp h.2, Region.next, if_neg hq]
  rfl

theorem Fills.append {cs cs' out out' : List Char} {args args' : List String} (h : Fills cs args out)
    (h' : Fills cs' args' out') : Fills (cs ++ cs') (args ++ args') (out ++ out') := by
  intro supplied more written rest
  simp only [List.append_assoc, List.reverse_append]
  rw [h, h']

theorem Fills.interpolate_eq {text out : String} {args : List String} (h : Fills text.toList args out.toList) :
    interpolate text args = .ok out := by
  have hfill := h args.length [] [] []
  simp only [List.append_nil] at hfill
  rw [interpolate, hfill]
  simp [fill, Except.map]

/-- The text has neither a placeholder nor a quote. -/
def Plain (text : String) : Prop := '?' ∉ text.toList ∧ '\'' ∉ text.toList

instance (text : String) : Decidable (Plain text) := inferInstanceAs (Decidable (_ ∧ _))

theorem fills_self : ∀ {cs : List Char}, '?' ∉ cs → '\'' ∉ cs → Fills cs [] cs
  | [], _, _ => .nil
  | c :: cs, hp, hq => by
    obtain ⟨hpc, hpcs⟩ := List.ne_and_not_mem_of_not_mem_cons hp
    obtain ⟨hqc, hqcs⟩ := List.ne_and_not_mem_of_not_mem_cons hq
    exact (Fills.char hpc.symm hqc.symm).append (fills_self hpcs hqcs)

theorem Plain.fills {text : String} (h : Plain text) : Fills text.toList [] text.toList := fills_self h.1 h.2

/-- The text has no quote, so all of it stands outside literals, and it has one placeholder for each argument. -/
structure Fits (text : String) (args : List String) : Prop where
  unquoted : '\'' ∉ text.toList
  placeholders : text.toList.count '?' = args.length

theorem Plain.fits {text : String} (h : Plain text) : Fits text [] := ⟨h.2, List.count_eq_zero.2 h.1⟩

theorem Fits.append {text text' : String} {args args' : List String} (h : Fits text args) (h' : Fits text' args') :
    Fits (text ++ text') (args ++ args') := by
  constructor
  · simp [h.unquoted, h'.unquoted]
  · simp [h.placeholders, h'.placeholders]

theorem exists_fills_of_count : ∀ {cs : List Char} {args : List String}, '\'' ∉ cs → cs.count '?' = args.length →
    ∃ out, Fills cs args out
  | [], [], _, _ => ⟨[], .nil⟩
  | c :: cs, args, hq, hcount => by
    obtain ⟨hqc, hqcs⟩ := List.ne_and_not_mem_of_not_mem_cons hq
    by_cases hp : c = '?'
    · -- one placeholder and one argument less
      subst hp
      rw [List.count_cons_self] at hcount
      obtain ⟨arg, args, rfl⟩ := List.exists_cons_of_length_eq_add_one hcount.symm
      obtain ⟨out, hout⟩ := exists_fills_of_count hqcs (Nat.succ.inj hcount)
      exact ⟨_, (Fills.placeholder arg).append hout⟩
    · rw [List.count_cons_of_ne hp] at hcount
      obtain ⟨out, hout⟩ := exists_fills_of_count hqcs hcount
      exact ⟨_, (Fills.char hp hqc.symm).append hout⟩

/-- A text that fits its arguments uses them up. -/
theorem Fits.exists_fills {text : String} {args : List String} (h : Fits text args) :
    ∃ out : String, Fills text.toList args out.toList := by
  obtain ⟨out, hout⟩ := exists_fills_of_count h.unquoted h.placeholders
  exact ⟨String.ofList out, by rwa [String.toList_ofList]⟩

end Sql

open Sql

/-! ## The text of a tree -/

namespace Formula

variable {write : Condition → String}

theorem fills_symbol (symbol : Symbol Condition)
    (h : ∀ c ∈ symbol.atoms, Fills c.fragment.toList c.args (write c).toList) :
    Fills (symbol.map Condition.fragment).text.toList (symbol.atoms.flatMap Condition.args)
      (symbol.map write).text.toList := by
  cases symbol with
  | leftParen => exact Plain.fills (by decide)
  | rightParen => exact Plain.fills (by decide)
  | connective c =>
    cases c
    · exact Plain.fills (by decide)
    · exact Plain.fills (by decide)
  | atom c =>
    have hargs : (Symbol.atom c).atoms.flatMap Condition.args = c.args := List.append_nil _
    rw [hargs]
    exact h c List.mem_cons_self

theorem fills_row : ∀ row : List (Symbol Condition),
    (∀ c ∈ row.flatMap Symbol.atoms, Fills c.fragment.toList c.args (write c).toList) →
      Fills (String.join (row.map fun symbol => (symbol.map Condition.fragment).text)).toList
        ((row.flatMap Symbol.atoms).flatMap Condition.args)
        (String.join (row.map fun symbol => (symbol.map write).text)).toList
  | [], _ => .nil
  | symbol :: row, h => by
    rw [List.flatMap_cons] at h
    simp only [List.map_cons, String.join_cons, String.toList_append, List.flatMap_cons, List.flatMap_append]
    exact (fills_symbol symbol fun c hc => h c (List.mem_append_left _ hc)).append
      (fills_row row fun c hc => h c (List.mem_append_right _ hc))

/-- **If each leaf becomes `write` of the leaf, the condition of the tree becomes the tree written with `write`.** The
atoms of the text are the leaves in their order, so each takes the arguments that it brings. -/
theorem fills_condition {e : Formula Condition}
    (h : ∀ c ∈ e.leaves, Fills c.fragment.toList c.args (write c).toList) :
    Fills e.condition.fragment.toList e.condition.args (e.text write false).toList := by
  rw [← flatMap_atoms_symbols false e] at h
  have hrow := fills_row (e.symbols false) h
  rw [flatMap_atoms_symbols false e] at hrow
  exact hrow

end Formula

/-! ## The conditions of a search -/

namespace Condition

/-- The condition with its arguments put in, if it takes them. -/
def rendered (c : Condition) : String := c.render.toOption.getD ""

theorem fills_rendered {c : Condition} (h : Fits c.fragment c.args) :
    Fills c.fragment.toList c.args c.rendered.toList := by
  obtain ⟨out, hout⟩ := h.exists_fills
  rwa [rendered, render, hout.interpolate_eq]

theorem fits_never : Fits never.fragment never.args := Plain.fits (by decide)

theorem fits_negate {c : Condition} (h : Fits c.fragment c.args) : Fits c.negate.fragment c.negate.args := by
  have hleft : Fits "NOT (" [] := Plain.fits (by decide)
  have hright : Fits ")" [] := Plain.fits (by decide)
  simpa [negate] using (hleft.append h).append hright

theorem fits_intercalate : ∀ {cs : List Condition}, (∀ c ∈ cs, Fits c.fragment c.args) →
    Fits (String.intercalate " OR " (cs.map fragment)) (cs.flatMap args)
  | [], _ => Plain.fits (by decide)
  | [c], h => by simpa using h c List.mem_cons_self
  | c :: d :: cs, h => by
    obtain ⟨hc, hcs⟩ := List.forall_mem_cons.1 h
    have hor : Fits " OR " [] := Plain.fits (by decide)
    have := (hc.append hor).append (fits_intercalate hcs)
    simpa [String.intercalate_cons_cons] using this

theorem fits_anyOf {cs : List Condition} (h : ∀ c ∈ cs, Fits c.fragment c.args) :
    Fits (anyOf cs).fragment (anyOf cs).args := by
  have hleft : Fits "(" [] := Plain.fits (by decide)
  have hright : Fits ")" [] := Plain.fits (by decide)
  simpa [anyOf] using (hleft.append (fits_intercalate h)).append hright

end Condition

namespace Field

/-- The column that the field is in. -/
def columnName : Field → String
  | column name _ | cell name _ | body name => name

variable {f : Field}

theorem fits_expression (h : Plain f.columnName) : Fits f.expression f.args := by
  cases f with
  | column name _ => exact Plain.fits h
  | body name => exact Plain.fits h
  | cell map key =>
    have hmark : Fits "[?]" [key] := ⟨by decide, rfl⟩
    exact (Plain.fits h).append hmark

theorem fits_operand (h : Plain f.columnName) (ordering wildcard : Bool) :
    Fits (f.operand ordering wildcard) f.args := by
  rw [operand]
  split
  · have hleft : Fits "toString(" [] := Plain.fits (by decide)
    have hright : Fits ")" [] := Plain.fits (by decide)
    simpa using (hleft.append (fits_expression h)).append hright
  · exact fits_expression h

/-- A test of the body takes the literal and nothing else. -/
theorem fits_search {name : String} (h : Plain name) (l : Literal) :
    Fits ((body name).search l).fragment ((body name).search l).args := by
  obtain ⟨arg, hsearch⟩ := (body name).exists_search_eq l
  rw [hsearch]
  dsimp only
  split
  · have hmark : Fits " ILIKE ?" [arg] := ⟨by decide, rfl⟩
    exact h.fits.append hmark
  · have hleft : Fits "hasTokenCaseInsensitive(" [] := Plain.fits (by decide)
    have hmark : Fits ", ?)" [arg] := ⟨by decide, rfl⟩
    exact (hleft.append h.fits).append hmark

theorem fits_comparison (r : Relation) (wildcard : Bool) (arg : String) : Fits (comparison r wildcard) [arg] := by
  rw [comparison]
  split
  · exact ⟨by decide, rfl⟩
  · exact ⟨by cases r <;> decide, by cases r <;> rfl⟩

theorem fits_compare (h : Plain f.columnName) {r : Relation} {l : Literal} {c : Condition}
    (hc : f.compare r l = .ok c) : Fits c.fragment c.args := by
  obtain ⟨arg, rfl⟩ := exists_of_compare hc
  exact (fits_operand h _ _).append (fits_comparison r _ arg)

theorem fits_compareValue (h : Plain f.columnName) {r : Relation} {value : Value} {c : Condition}
    (hc : f.compareValue r value = .ok c) : Fits c.fragment c.args := by
  cases value with
  | single l => exact fits_compare h hc
  | list ls =>
    obtain ⟨cs, hcs, rfl⟩ := exists_of_compareValue_list hc
    refine Condition.fits_anyOf fun d hd => ?_
    obtain ⟨l, -, hl⟩ := Formula.exists_of_map_eq_map_ok hcs hd
    exact fits_compare h hl

end Field

theorem Relation.fits_finish (r : Relation) {c : Condition} (h : Fits c.fragment c.args) :
    Fits (r.finish c).fragment (r.finish c).args := by
  rw [finish]
  split
  · exact Condition.fits_negate h
  · exact h

namespace Table

/-- The columns that the layout names. -/
def columnNames (t : Table) : List String :=
  t.bodyColumn :: t.columns.entries.map Prod.snd ++ t.attributes.map AttributeMap.column

/-- No column is named with a placeholder or a quote. -/
def PlainNames (t : Table) : Prop := ∀ name ∈ t.columnNames, Plain name

instance (t : Table) : Decidable t.PlainNames := inferInstanceAs (Decidable (∀ name ∈ t.columnNames, Plain name))

variable {t : Table}

theorem mem_attributes_of_attributeMap? {key : String} {m : AttributeMap} (h : t.attributeMap? key = some m) :
    m ∈ t.attributes := by
  rcases Option.or_eq_some_iff.1 h with h | ⟨-, h⟩
  · exact List.mem_of_find?_eq_some h
  · exact List.mem_of_find?_eq_some h

/-- The field of a key is in a column that the layout names. -/
theorem columnName_mem_of_resolve {key : String} {f : Field} (h : t.resolve key = some f) :
    f.columnName ∈ t.columnNames := by
  rw [resolve] at h
  split at h
  · next name hname =>
    cases h
    have : name ∈ t.columns.entries.map Prod.snd := List.mem_map_of_mem (Dictionary.mem_entries_iff.2 hname)
    simp [columnNames, Field.columnName, this]
  · obtain ⟨m, hm, rfl⟩ := Option.map_eq_some_iff.1 h
    have : m.column ∈ t.attributes.map AttributeMap.column := List.mem_map_of_mem (mem_attributes_of_attributeMap? hm)
    simp [columnNames, Field.columnName, this]

end Table

namespace Search

variable {s : Search}

/-- The condition of a term has a placeholder for each of its arguments. -/
theorem fits_term (hs : s.table.PlainNames) {t : Term} {c : Condition} (h : s.term t = .ok c) :
    Fits c.fragment c.args := by
  cases t with
  | body l =>
    cases h
    exact Field.fits_search (hs _ List.mem_cons_self) l
  | keyed key r value =>
    rcases cases_of_term_keyed h with ⟨f, d, hf, hd, rfl⟩ | ⟨-, rfl⟩
    · have hplain : Plain f.columnName := hs _ (Table.columnName_mem_of_resolve hf)
      exact r.fits_finish (Field.fits_compareValue hplain hd)
    · exact r.fits_finish Condition.fits_never

/-- **Every argument stays with its own leaf.** If no column is named with a `?` or a quote, the arguments of a compiled
query can be put in, those of each of its leaves can be put into that leaf alone, and the first gives the text that the
tree has with the results of the second in the place of its leaves. -/
theorem render_condition (hs : s.table.PlainNames) {query : String} {e : Formula Condition}
    (h : s.formula? query = .ok (some e)) :
    ∃ texts : Formula String,
      e.traverse Condition.render = .ok texts ∧ e.condition.render = .ok (texts.text id false) := by
  obtain ⟨q, -, -, hq⟩ := exists_query_of_formula? h
  have hfills : ∀ c ∈ e.leaves, Fills c.fragment.toList c.args c.rendered.toList := fun c hc => by
    obtain ⟨t, -, ht⟩ := Formula.exists_of_mem_leaves_traverse hq hc
    exact Condition.fills_rendered (fits_term hs ht)
  refine ⟨e.map Condition.rendered, Formula.traverse_eq_ok_map fun c hc => (hfills c hc).interpolate_eq, ?_⟩
  rw [Formula.text_map]
  exact (Formula.fills_condition hfills).interpolate_eq

/-- A list of values under a negation, each with the key of its cell, in front of a word. Two of the arguments hold a
`?` and a quote themselves. -/
theorem render_condition_list :
    Table.traces.PlainNames ∧
      ∃ e : Formula Condition,
        (⟨.traces, .reject⟩ : Search).formula? "http.status!=(200 OR \"a?b\") it's" = .ok (some e) ∧
        e.condition.args = ["http.status", "200", "http.status", "a?b", "it's"] ∧
        e.condition.render =
          .ok ("NOT ((HttpAttributes['http.status'] = '200' OR HttpAttributes['http.status'] = 'a?b')) AND " ++
            "hasTokenCaseInsensitive(SpanName, 'it\\'s')") ∧
        ∃ texts : Formula String,
          e.traverse Condition.render = .ok texts ∧ e.condition.render = .ok (texts.text id false) := by
  let q : Query :=
    ⟨.term (.keyed "http.status" .ne (.list [.word "200", .phrase "a?b"])) (List.cons_ne_nil _ _),
      .cons none (.term (.body (.word "it's")) trivial) .nil⟩
  have hq : tokenize "http.status!=(200 OR \"a?b\") it's" = .ok q.tokens :=
    tokenize_eq_ok_iff.2 (.cons rfl rfl (.cons rfl rfl (.cons rfl rfl (.cons rfl rfl (.cons rfl rfl (.cons rfl rfl
      (.cons rfl rfl (.cons rfl rfl (.nil rfl)))))))))
  have hplain : Table.traces.PlainNames := by decide +kernel
  have he := formula?_of_tokenize ⟨.traces, .reject⟩ hq (by decide)
  refine ⟨hplain, _, he, rfl, ?_, render_condition hplain he⟩
  decide +kernel

end Search

end TelemetrySearch
