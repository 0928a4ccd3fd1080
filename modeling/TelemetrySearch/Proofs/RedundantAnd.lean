import TelemetrySearch.Proofs.QueryMeaning

/-!
# The keyword `AND` is redundant

Operands side by side are joined by `AND`, so the keyword between them can be left out. `DropsAnd tokens tokens'` says
that `tokens'` are the tokens without some of the keywords `AND`.

In the tokens of a tree each `AND` is the link of a chain, for a value list has no keyword but `OR`
(`Term.and_not_mem_tokens`). Leaving some of them out gives the tokens of a tree with fewer links and the same formula
(`Operand.exists_of_dropsAnd`, `Chain.exists_of_dropsAnd`). What the reader sees ahead is other than before, but the
trees say what it reads: `Search.compileTokens_dropsAnd`.
-/

namespace TelemetrySearch

/-! ## Leaving out keywords -/

/-- The tokens `tokens'` are `tokens` without some of the keywords `AND`. -/
inductive DropsAnd : List Token → List Token → Prop
  | nil : DropsAnd [] []
  | keep (token : Token) {tokens tokens' : List Token} :
      DropsAnd tokens tokens' → DropsAnd (token :: tokens) (token :: tokens')
  | drop {tokens tokens' : List Token} : DropsAnd tokens tokens' → DropsAnd (.keyword .and :: tokens) tokens'

/-- Two parts of the tokens can be looked at apart. -/
theorem DropsAnd.exists_append {xs ys tokens' : List Token} (h : DropsAnd (xs ++ ys) tokens') :
    ∃ xs' ys', tokens' = xs' ++ ys' ∧ DropsAnd xs xs' ∧ DropsAnd ys ys' := by
  induction xs generalizing tokens' with
  | nil => exact ⟨[], tokens', rfl, .nil, h⟩
  | cons token xs ih =>
    cases h with
    | keep _ h =>
      obtain ⟨xs', ys', rfl, hxs, hys⟩ := ih h
      exact ⟨token :: xs', ys', rfl, .keep token hxs, hys⟩
    | drop h =>
      obtain ⟨xs', ys', rfl, hxs, hys⟩ := ih h
      exact ⟨xs', ys', rfl, .drop hxs, hys⟩

/-- Without an `AND` there is nothing to leave out. -/
theorem DropsAnd.eq_of_not_mem {tokens tokens' : List Token} (h : DropsAnd tokens tokens')
    (hand : .keyword .and ∉ tokens) : tokens' = tokens := by
  induction h with
  | nil => rfl
  | keep token _ ih => rw [ih fun hmem => hand (List.mem_cons_of_mem token hmem)]
  | drop => exact absurd List.mem_cons_self hand

/-- A link that is left out is the one that operands side by side have. -/
theorem DropsAnd.exists_link {link : Option Connective} {tokens' : List Token}
    (h : DropsAnd (link.map Token.keyword).toList tokens') :
    ∃ link' : Option Connective, tokens' = (link'.map Token.keyword).toList ∧ link'.getD .and = link.getD .and := by
  cases link with
  | none =>
    cases h
    exact ⟨none, rfl, rfl⟩
  | some c =>
    cases h with
    | keep _ h =>
      cases h
      exact ⟨some c, rfl, rfl⟩
    | drop h =>
      cases h
      exact ⟨none, rfl, rfl⟩

/-! ## Terms have no `AND` -/

theorem Literal.and_ne_token (l : Literal) : Token.keyword .and ≠ l.token := by
  obtain ⟨text, quoted⟩ := l
  cases quoted <;> intro h <;> cases h

theorem Literal.and_not_mem_rowTokens (ls : List Literal) : Token.keyword .and ∉ Literal.rowTokens ls := by
  fun_induction Literal.rowTokens ls with
  | case1 => exact List.not_mem_nil
  | case2 l => simpa using l.and_ne_token
  | case3 l ls _ ih => simpa using ⟨l.and_ne_token, ih⟩

theorem Term.and_not_mem_tokens (t : Term) : Token.keyword .and ∉ t.tokens := by
  cases t with
  | body l => simpa [Term.tokens] using l.and_ne_token
  | keyed key r value =>
    cases value with
    | single l => simpa [Term.tokens, Value.tokens] using l.and_ne_token
    | list ls => simpa [Term.tokens, Value.tokens] using Literal.and_not_mem_rowTokens ls

/-! ## Trees -/

mutual

/-- What is left of an operand is an operand with the same formula. -/
theorem Operand.exists_of_dropsAnd : ∀ (o : Operand) {tokens' : List Token}, DropsAnd o.tokens tokens' →
    ∃ o' : Operand, o'.tokens = tokens' ∧ o'.depth = o.depth ∧ o'.formula = o.formula
  | .term t ht, tokens', h => ⟨.term t ht, (h.eq_of_not_mem t.and_not_mem_tokens).symm, rfl, rfl⟩
  | .group first more, tokens', h => by
    rw [Operand.tokens, List.append_assoc, List.cons_append] at h
    cases h with
    | keep _ h =>
      obtain ⟨firstTokens, _, rfl, hfirst, h⟩ := h.exists_append
      obtain ⟨moreTokens, close, rfl, hmore, hclose⟩ := h.exists_append
      obtain ⟨first', rfl, hdepth, hformula⟩ := Operand.exists_of_dropsAnd first hfirst
      obtain ⟨more', rfl, hdepths, hrow⟩ := Chain.exists_of_dropsAnd more hmore
      obtain rfl : close = [.rightParen] := hclose.eq_of_not_mem (by simp)
      refine ⟨.group first' more', ?_, ?_, ?_⟩
      · simp [Operand.tokens]
      · rw [Operand.depth, Operand.depth, hdepth, hdepths]
      · rw [Operand.formula, Operand.formula, hformula, hrow]

/-- What is left of a chain is a chain with the same row of formulas. -/
theorem Chain.exists_of_dropsAnd : ∀ (c : Chain) {tokens' : List Token}, DropsAnd c.tokens tokens' →
    ∃ c' : Chain, c'.tokens = tokens' ∧ c'.depth = c.depth ∧ c'.row = c.row
  | .nil, tokens', h => ⟨.nil, (h.eq_of_not_mem List.not_mem_nil).symm, rfl, rfl⟩
  | .cons link o more, tokens', h => by
    rw [Chain.tokens, List.append_assoc] at h
    obtain ⟨linkTokens, _, rfl, hlink, h⟩ := h.exists_append
    obtain ⟨operandTokens, moreTokens, rfl, hoperand, hmore⟩ := h.exists_append
    obtain ⟨link', rfl, hconnective⟩ := hlink.exists_link
    obtain ⟨o', rfl, hdepth, hformula⟩ := Operand.exists_of_dropsAnd o hoperand
    obtain ⟨more', rfl, hdepths, hrow⟩ := Chain.exists_of_dropsAnd more hmore
    refine ⟨.cons link' o' more', ?_, ?_, ?_⟩
    · rw [Chain.tokens, List.append_assoc]
    · rw [Chain.depth, Chain.depth, hdepth, hdepths]
    · rw [Chain.row, Chain.row, hconnective, hformula, hrow]

end

/-- **What is left of a query is a query with the same formula.** -/
theorem Query.exists_of_dropsAnd (q : Query) {tokens' : List Token} (h : DropsAnd q.tokens tokens') :
    ∃ q' : Query, q'.tokens = tokens' ∧ q'.depth = q.depth ∧ q'.formula = q.formula := by
  obtain ⟨firstTokens, moreTokens, rfl, hfirst, hmore⟩ := DropsAnd.exists_append h
  obtain ⟨first, rfl, hdepth, hformula⟩ := q.first.exists_of_dropsAnd hfirst
  obtain ⟨more, rfl, hdepths, hrow⟩ := q.more.exists_of_dropsAnd hmore
  refine ⟨⟨first, more⟩, rfl, ?_, ?_⟩
  · rw [Query.depth, Query.depth, hdepth, hdepths]
  · rw [Query.formula, Query.formula, hformula, hrow]

/-! ## Compiled formulas -/

namespace Search

variable {s : Search}

/-- **Keywords `AND` can be left out.** If tokens compile to a formula, they compile to the same formula without any
number of their keywords `AND`. -/
theorem compileTokens_dropsAnd {tokens tokens' : List Token} {e : Formula Condition}
    (h : s.compileTokens tokens = .ok (some e)) (hdrops : DropsAnd tokens tokens') :
    s.compileTokens tokens' = .ok (some e) := by
  obtain ⟨q, rfl, hd, he⟩ := exists_query_of_compileTokens_eq_some h
  obtain ⟨q', rfl, hdepth, hformula⟩ := q.exists_of_dropsAnd hdrops
  rw [s.compileTokens_tokens (by omega), hformula, he]
  rfl

/-- The `AND` in the group and the one behind the value list are left out, the one behind the group stays. -/
theorem compileTokens_dropsAnd_group :
    let e : Formula Condition :=
      .group
        [.group
            [.group
              [.leaf ⟨"hasTokenCaseInsensitive(SpanName, ?)", ["a"]⟩, .leaf ⟨"SpanName ILIKE ?", ["%b%"]⟩] [.and],
              .leaf ⟨"hasTokenCaseInsensitive(SpanName, ?)", ["c"]⟩] [.or],
          .leaf ⟨"(toString(Level) = ? OR toString(Level) = ?)", ["x", "y"]⟩,
          .leaf ⟨"hasTokenCaseInsensitive(SpanName, ?)", ["d"]⟩] [.and, .and]
    (⟨.traces, .reject⟩ : Search).compileTokens
        [.leftParen, .word "a", .keyword .and, .phrase "b", .keyword .or, .word "c", .rightParen, .keyword .and,
          .word "level", .relation .eq, .leftParen, .word "x", .keyword .or, .word "y", .rightParen, .keyword .and,
          .word "d"] = .ok (some e) ∧
      (⟨.traces, .reject⟩ : Search).compileTokens
        [.leftParen, .word "a", .phrase "b", .keyword .or, .word "c", .rightParen, .keyword .and,
          .word "level", .relation .eq, .leftParen, .word "x", .keyword .or, .word "y", .rightParen,
          .word "d"] = .ok (some e) := by
  intro e
  let q : Query :=
    ⟨.group (.term (.body (.word "a")) trivial)
        (.cons (some .and) (.term (.body (.phrase "b")) trivial)
          (.cons (some .or) (.term (.body (.word "c")) trivial) .nil)),
      .cons (some .and) (.term (.keyed "level" .eq (.list [.word "x", .word "y"])) (List.cons_ne_nil _ _))
        (.cons (some .and) (.term (.body (.word "d")) trivial) .nil)⟩
  refine (fun h => ⟨h, ?_⟩) (compileTokens_tokens ⟨.traces, .reject⟩ (show q.depth ≤ maxDepth by decide))
  apply compileTokens_dropsAnd h
  repeat constructor

end Search

end TelemetrySearch
