import TelemetrySearch.Proofs.RowReading
import TelemetrySearch.Search

/-!
# What a list of tokens compiles to

The tokens of a tree compile to the formula of the tree with each term compiled, from left to right
(`Search.compileTokens_tokens`); nothing else compiles (`Search.exists_query_of_compileTokens`).

* `compileTokens_grammar`: the lists of tokens that compile are those of the grammar whose terms compile.
* `value_compileTokens`: what they compile to has the value that the grammar gives to the tokens.
-/

namespace TelemetrySearch

theorem Formula.condition_leaf (c : Condition) : (Formula.leaf c).condition = c := by
  simp [condition, text, symbols, Symbol.map, Symbol.text, leaves]

namespace Search

variable {s : Search}

/-- The tokens of a query compile to its formula with each term compiled. -/
theorem compileTokens_tokens (s : Search) {q : Query} (hd : q.depth ≤ maxDepth) :
    s.compileTokens q.tokens = (q.formula.traverse s.term).map some := by
  rw [compileTokens, Query.readQuery_tokens hd]
  rfl

/-- Without a query there is nothing that compiles. -/
theorem exists_query_of_compileTokens {tokens : List Token} (hne : tokens ≠ []) {result : Option (Formula Condition)}
    (h : s.compileTokens tokens = .ok result) : ∃ q : Query, q.tokens = tokens ∧ q.depth ≤ maxDepth := by
  rw [compileTokens] at h
  cases hr : readQuery tokens with
  | mk terms read =>
    rw [hr] at h
    cases read with
    | ok read =>
      obtain ⟨q, hq, hd, -⟩ := exists_query_of_readQuery hne hr
      exact ⟨q, hq, hd⟩
    | error fault =>
      simp only [compileReading] at h
      split at h <;> cases h

theorem traverse_of_compileTokens {q : Query} (hd : q.depth ≤ maxDepth) {e : Formula Condition}
    (h : s.compileTokens q.tokens = .ok (some e)) : q.formula.traverse s.term = .ok e := by
  rw [s.compileTokens_tokens hd] at h
  cases hf : q.formula.traverse s.term with
  | error e => rw [hf] at h; cases h
  | ok f => rw [hf] at h; cases h; rfl

/-- What tokens compile to is the formula of their query with each term compiled. -/
theorem exists_query_of_compileTokens_eq_some {tokens : List Token} {e : Formula Condition}
    (h : s.compileTokens tokens = .ok (some e)) :
    ∃ q : Query, q.tokens = tokens ∧ q.depth ≤ maxDepth ∧ q.formula.traverse s.term = .ok e := by
  have hne : tokens ≠ [] := by
    rintro rfl
    cases h
  obtain ⟨q, rfl, hd⟩ := exists_query_of_compileTokens hne h
  exact ⟨q, rfl, hd, traverse_of_compileTokens hd h⟩

/-- A text with the tokens of a query compiles to the formula of the query with each term compiled. -/
theorem formula?_of_tokenize (s : Search) {query : String} {q : Query} (hq : tokenize query = .ok q.tokens)
    (hd : q.depth ≤ maxDepth) : s.formula? query = (q.formula.traverse s.term).map some := by
  rw [formula?, hq]
  exact s.compileTokens_tokens hd

theorem traverse_of_formula? {query : String} {q : Query} (hq : tokenize query = .ok q.tokens) (hd : q.depth ≤ maxDepth)
    {e : Formula Condition} (h : s.formula? query = .ok (some e)) : q.formula.traverse s.term = .ok e := by
  rw [formula?, hq] at h
  exact traverse_of_compileTokens hd h

/-- A text that compiles has the tokens of a query, whose terms have been compiled. -/
theorem exists_query_of_formula? {query : String} {e : Formula Condition} (h : s.formula? query = .ok (some e)) :
    ∃ q : Query, tokenize query = .ok q.tokens ∧ q.depth ≤ maxDepth ∧ q.formula.traverse s.term = .ok e := by
  have hquery := h
  rw [formula?] at h
  cases ht : tokenize query with
  | error fault => rw [ht] at h; cases h
  | ok tokens =>
    rw [ht] at h
    have hne : tokens ≠ [] := by rintro rfl; cases h
    obtain ⟨q, rfl, hd⟩ := exists_query_of_compileTokens hne h
    exact ⟨q, rfl, hd, traverse_of_formula? ht hd hquery⟩

/-- The condition of a query is that of its formula. -/
theorem exists_formula_of_condition? {query : String} {c : Condition} (h : s.condition? query = .ok (some c)) :
    ∃ e, s.formula? query = .ok (some e) ∧ c = e.condition := by
  rw [condition?] at h
  cases hf : s.formula? query with
  | error fault => rw [hf] at h; cases h
  | ok result =>
    rw [hf] at h
    cases result with
    | none => cases h
    | some e =>
      cases h
      exact ⟨e, rfl, rfl⟩

/-- A text with the tokens of one term compiles to the condition of the term. -/
theorem condition?_of_tokens (s : Search) {query : String} {t : Term} (hw : t.IsWritten)
    (h : tokenize query = .ok t.tokens) : s.condition? query = (s.term t).map some := by
  have htokens : tokenize query = .ok (Query.mk (.term t hw) .nil).tokens := by
    rw [h, Query.tokens, Operand.tokens, Chain.tokens, List.append_nil]
  rw [condition?, s.formula?_of_tokenize htokens (Nat.zero_le _)]
  show Except.map _ (Except.map some (Except.map Formula.leaf (s.term t))) = _
  cases s.term t with
  | error e => rfl
  | ok c => exact congrArg (fun d => Except.ok (some d)) (Formula.condition_leaf c)

/-! ## The grammar -/

/-- **The lists of tokens that compile.** No tokens compile to nothing. The tokens of a query with groups at most
`maxDepth` deep compile if all its terms do, and else to the error of the leftmost term that does not. Other tokens do
not compile. -/
theorem compileTokens_grammar (s : Search) (tokens : List Token) :
    (s.compileTokens tokens = .ok none ↔ tokens = []) ∧
      (∀ q : Query, q.tokens = tokens → q.depth ≤ maxDepth →
        ((∀ t ∈ q.terms, ∃ c, s.term t = .ok c) → ∃ e, s.compileTokens tokens = .ok (some e)) ∧
          ∀ before t after error, q.terms = before ++ t :: after → (∀ u ∈ before, ∃ c, s.term u = .ok c) →
            s.term t = .error error → s.compileTokens tokens = .error error) ∧
      (tokens ≠ [] → (¬∃ q : Query, q.tokens = tokens ∧ q.depth ≤ maxDepth) →
        ∃ error, s.compileTokens tokens = .error error) := by
  refine ⟨⟨fun h => ?_, ?_⟩, ?_, fun hne hq => ?_⟩
  · by_cases hne : tokens = []
    · exact hne
    · obtain ⟨q, rfl, hd⟩ := exists_query_of_compileTokens hne h
      rw [s.compileTokens_tokens hd] at h
      cases hf : q.formula.traverse s.term <;> rw [hf] at h <;> cases h
  · rintro rfl
    rfl
  · rintro q rfl hd
    rw [s.compileTokens_tokens hd, ← q.leaves_formula]
    refine ⟨fun hall => ?_, fun before t after error hterms hbefore ht => ?_⟩
    · obtain ⟨e, he⟩ := Formula.exists_traverse_eq_ok hall
      exact ⟨e, by rw [he]; rfl⟩
    · rw [Formula.traverse_eq_error hterms hbefore ht]
      rfl
  · cases h : s.compileTokens tokens with
    | error e => exact ⟨e, rfl⟩
    | ok result => exact absurd (exists_query_of_compileTokens hne h) hq

/-- Two terms do not compile, and the error is that of the left one, inside the group. A connective at the end is in no
query. -/
theorem compileTokens_grammar_leftmost :
    (⟨.traces, .reject⟩ : Search).compileTokens
        [.leftParen, .word "a", .keyword .or, .word "duration", .relation .gt, .word "fast", .rightParen,
          .word "level", .relation .gt, .word "x*"] =
      .error (.invalidValue "duration" (.duration "fast" .malformed)) ∧
    ∃ error, (⟨.traces, .reject⟩ : Search).compileTokens [.word "a", .keyword .and] = .error error := by
  constructor
  · let q : Query :=
      ⟨.group (.term (.body (.word "a")) trivial)
          (.cons (some .or) (.term (.keyed "duration" .gt (.single (.word "fast"))) trivial) .nil),
        .cons none (.term (.keyed "level" .gt (.single (.word "x*"))) trivial) .nil⟩
    have hq := ((compileTokens_grammar ⟨.traces, .reject⟩ q.tokens).2.1 q rfl (by decide)).2
    refine hq [.body (.word "a")] (.keyed "duration" .gt (.single (.word "fast"))) _ _ rfl ?_ rfl
    intro u hu
    rw [List.mem_singleton.1 hu]
    exact ⟨_, rfl⟩
  · refine (compileTokens_grammar _ _).2.2 (by simp) ?_
    rintro ⟨q, hq, hd⟩
    have hread := Query.readQuery_tokens hd
    have hfault : readQuery [.word "a", .keyword .and] = ⟨[.body (.word "a")], .error (.noRightOperand .and)⟩ := by
      rw [readQuery_of_ne_nil (by simp), rowReading_of_readTerm 0 .start _ (by simp) rfl, rowReading_keyword]
      simp only [Place.connectiveFault?]
      rw [rowReading_nil]
      rfl
    rw [hq, hfault] at hread
    cases congrArg Reading.result hread

/-! ## The value -/

/-- The value of a term is that of the condition it compiles to. -/
def termValue (s : Search) (v : Condition → Bool) (t : Term) : Bool :=
  match s.term t with
  | .ok c => v c
  | .error _ => false

/-- **The formula that tokens compile to means what the tokens mean.** The tokens are those of exactly one query, all
the terms of the query compile, and under every truth assignment to conditions the formula has the value of the query,
in which a term has the value of its condition. -/
theorem value_compileTokens {tokens : List Token} {e : Formula Condition}
    (h : s.compileTokens tokens = .ok (some e)) :
    ∃ q : Query, q.tokens = tokens ∧ (∀ q' : Query, q'.tokens = tokens → q' = q) ∧
      (∀ t ∈ q.terms, ∃ c, s.term t = .ok c) ∧
      ∀ v : Condition → Bool, e.value v = q.value (s.termValue v) := by
  have hne : tokens ≠ [] := by rintro rfl; cases h
  obtain ⟨q, rfl, hd⟩ := exists_query_of_compileTokens hne h
  rw [s.compileTokens_tokens hd] at h
  cases hf : q.formula.traverse s.term with
  | error e => rw [hf] at h; cases h
  | ok f =>
    rw [hf] at h
    cases h
    refine ⟨q, rfl, fun q' hq' => Query.tokens_injective hq', ?_, fun v => ?_⟩
    · rw [← q.leaves_formula]
      exact Formula.forall_leaves_of_traverse_eq_ok hf
    · rw [← Query.value_formula]
      exact Formula.value_traverse hf fun t _ c hc => by rw [termValue, hc]

/-- The `AND` of the group and of what stands beside it come together in one group, and the `OR` stays outside. -/
theorem value_compileTokens_or :
    (⟨.traces, .reject⟩ : Search).compileTokens
        [.word "a", .keyword .or, .leftParen, .word "level", .relation .eq, .phrase "x", .word "b", .rightParen,
          .word "c"] =
      .ok (some (.group
        [.leaf ⟨"hasTokenCaseInsensitive(SpanName, ?)", ["a"]⟩,
          .group
            [.leaf ⟨"toString(Level) = ?", ["x"]⟩, .leaf ⟨"hasTokenCaseInsensitive(SpanName, ?)", ["b"]⟩,
              .leaf ⟨"hasTokenCaseInsensitive(SpanName, ?)", ["c"]⟩] [.and, .and]] [.or])) ∧
    ∃ q : Query,
      q.tokens =
        [.word "a", .keyword .or, .leftParen, .word "level", .relation .eq, .phrase "x", .word "b", .rightParen,
          .word "c"] ∧
      ∀ v : Condition → Bool,
        (v ⟨"hasTokenCaseInsensitive(SpanName, ?)", ["a"]⟩ ||
          (v ⟨"toString(Level) = ?", ["x"]⟩ && v ⟨"hasTokenCaseInsensitive(SpanName, ?)", ["b"]⟩ &&
            v ⟨"hasTokenCaseInsensitive(SpanName, ?)", ["c"]⟩)) =
        q.value (termValue ⟨.traces, .reject⟩ v) := by
  let q : Query :=
    ⟨.term (.body (.word "a")) trivial,
      .cons (some .or)
        (.group (.term (.keyed "level" .eq (.single (.phrase "x"))) trivial)
          (.cons none (.term (.body (.word "b")) trivial) .nil))
        (.cons none (.term (.body (.word "c")) trivial) .nil)⟩
  refine (fun h => ⟨h, ?_⟩) (compileTokens_tokens ⟨.traces, .reject⟩ (show q.depth ≤ maxDepth by decide))
  obtain ⟨q, hq, -, -, hv⟩ := value_compileTokens h
  exact ⟨q, hq, hv⟩

end Search

end TelemetrySearch
