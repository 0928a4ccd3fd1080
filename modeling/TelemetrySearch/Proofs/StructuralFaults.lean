import TelemetrySearch.Proofs.TokenSpelling
import TelemetrySearch.Proofs.UnknownKeys

/-!
# Faults that the text already shows

A parenthesis without its partner and a relation without a value are found when a text is cut into tokens. The reader of
tokens looks for them again, for lists of tokens that no text has.

* `Settled depth tokens`: the tokens close `depth` parentheses and what they open, and each of them fits to its
  neighbours. A term, a connective or a parenthesis at their head leaves settled tokens (`Settled.behind_term`,
  `Settled.tail`).
* A row of settled tokens ends at the end of its group or with a fault that is not structural
  (`Settled.endsWell_rowReading`), whether its parentheses are groups or lists of values.
* The tokens of a text are settled, so no query has a structural fault behind the lexer
  (`Search.compileTokens_structural`).
-/

namespace TelemetrySearch

/-- The fault is a parenthesis without its partner, a relation without a value, or no term where one should be. -/
def Fault.isStructural : Fault → Bool
  | .unmatchedLeft | .unmatchedRight | .noTerm | .noValue _ => true
  | _ => false

/-! ## Tokens that are in place -/

theorem InPlace.behind {before rest : List Token} {last : Token} {behind : Bool}
    (h : InPlace behind (before ++ last :: rest)) : InPlace last.pending.isSome rest := by
  induction before generalizing behind with
  | nil => exact h.2
  | cons token before ih => exact ih h.2

/-- Behind a relation there is a value or the beginning of a list. -/
theorem InPlace.exists_value {tokens : List Token} (h : InPlace true tokens) :
    ∃ token rest, tokens = token :: rest ∧ (token.literal?.isSome ∨ token = .leftParen) := by
  cases tokens with
  | nil => cases h
  | cons token rest =>
    refine ⟨token, rest, rfl, ?_⟩
    obtain ⟨hfits, -⟩ := h
    cases token with
    | word text => exact .inl rfl
    | phrase text => exact .inl rfl
    | leftParen => exact .inr rfl
    | relation r => cases hfits
    | rightParen => cases hfits
    | keyword c => cases hfits.1

/-- Tokens with as many `(` as `)` leave as many parentheses open as there were before them. -/
theorem Closes.behind {depth : Nat} {before rest : List Token} (h : Closes depth (before ++ rest))
    (hcount : before.count .rightParen = before.count .leftParen) : Closes depth rest := by
  rw [closes_iff] at h ⊢
  obtain ⟨hnested, hclosed⟩ := h
  constructor
  · intro n
    have hn := hnested (before.length + n)
    rw [List.take_length_add_append, List.count_append, List.count_append] at hn
    omega
  · rw [List.count_append, List.count_append] at hclosed
    omega

/-! ## The tokens of a term -/

theorem Literal.count_token (token : Token) (h : token.literal? = none) (l : Literal) :
    [l.token].count token = 0 := by
  rw [List.count_eq_zero, List.mem_singleton]
  rintro rfl
  rw [l.literal?_token] at h
  cases h

theorem Literal.pending_token (l : Literal) : l.token.pending = none := by
  obtain ⟨text, quoted⟩ := l
  cases quoted <;> rfl

theorem Literal.count_rowTokens (token : Token) (hl : token.literal? = none) (hk : token ≠ .keyword .or)
    (ls : List Literal) : (rowTokens ls).count token = 0 := by
  induction ls with
  | nil => rfl
  | cons l ls ih =>
    have hcount := count_token token hl l
    cases ls with
    | nil => exact hcount
    | cons m ls =>
      show ([l.token] ++ (.keyword .or :: rowTokens (m :: ls))).count token = 0
      rw [List.count_append, hcount, List.count_cons_of_ne hk.symm, ih]

/-- A term closes the parentheses that it opens. -/
theorem Term.count_tokens (t : Term) : t.tokens.count .rightParen = t.tokens.count .leftParen := by
  cases t with
  | body l => exact (Literal.count_token _ rfl l).trans (Literal.count_token _ rfl l).symm
  | keyed key r value =>
    cases value with
    | single l =>
      have hright := Literal.count_token .rightParen rfl l
      have hleft := Literal.count_token .leftParen rfl l
      simpa [Term.tokens, Value.tokens] using hright.trans hleft.symm
    | list ls =>
      have hright := Literal.count_rowTokens .rightParen rfl (by simp) ls
      have hleft := Literal.count_rowTokens .leftParen rfl (by simp) ls
      simp [Term.tokens, Value.tokens, hright, hleft]

/-- A term does not end with a relation. -/
theorem Term.exists_tokens_eq (t : Term) : ∃ before last, t.tokens = before ++ [last] ∧ last.pending = none := by
  cases t with
  | body l => exact ⟨[], l.token, rfl, l.pending_token⟩
  | keyed key r value =>
    cases value with
    | single l => exact ⟨[.word key, .relation r], l.token, rfl, l.pending_token⟩
    | list ls => exact ⟨.word key :: .relation r :: .leftParen :: Literal.rowTokens ls, .rightParen, rfl, rfl⟩

/-! ## Settled tokens -/

/-- The tokens close `depth` parentheses and all that they open, and each fits to its neighbours. -/
structure Settled (depth : Nat) (tokens : List Token) : Prop where
  closes : Closes depth tokens
  inPlace : InPlace false tokens

namespace Settled

variable {depth : Nat} {rest : List Token}

theorem behind_term {t : Term} (h : Settled depth (t.tokens ++ rest)) : Settled depth rest := by
  obtain ⟨before, last, htokens, hlast⟩ := t.exists_tokens_eq
  have hplace := h.inPlace
  rw [htokens, List.append_assoc] at hplace
  have hrest := hplace.behind
  rw [hlast] at hrest
  exact ⟨h.closes.behind t.count_tokens, hrest⟩

/-- A token that asks for no value leaves settled tokens, with as many parentheses open as there are behind it. -/
theorem tail {depth' : Nat} {token : Token} (h : Settled depth (token :: rest))
    (hd : token.depthAfter depth = some depth') (hp : token.pending = none) : Settled depth' rest := by
  obtain ⟨_, hd', hclosed⟩ := h.closes
  rw [hd] at hd'
  cases hd'
  have hplace := h.inPlace.2
  rw [hp] at hplace
  exact ⟨hclosed, hplace⟩

/-- A `)` stands only where a parenthesis is open. -/
theorem depth_ne_zero (h : Settled depth (.rightParen :: rest)) : depth ≠ 0 := by
  rintro rfl
  obtain ⟨_, hd, -⟩ := h.closes
  cases hd

/-- The tokens end only where no parenthesis is open. -/
theorem depth_eq_zero (h : Settled depth []) : depth = 0 := h.closes

/-- Inside a group the end of the tokens is not reached. -/
theorem exists_rightParen {tokens : List Token} (h : Settled (depth + 1) tokens) (hend : AtEnd tokens) :
    ∃ outside, tokens = .rightParen :: outside := by
  rcases hend with rfl | hright
  · cases h.depth_eq_zero
  · exact hright

end Settled

/-! ## Faults of one term -/

theorem isStructural_of_readListItems {key : String} {tokens : List Token} {fault : Fault}
    (h : readListItems key tokens = .error fault) : fault.isStructural = false := by
  fun_induction readListItems key tokens with
  | case1 => cases h; rfl
  | case2 => cases h; rfl
  | case3 => cases h
  | case4 token l after hl ih =>
    cases hr : readListItems key after with
    | ok p => rw [hr] at h; cases h
    | error fault' =>
      rw [hr] at h
      cases h
      exact ih hr
  | case5 => cases h; rfl

theorem isStructural_of_readList {key : String} {tokens : List Token} {fault : Fault}
    (h : readList key tokens = .error fault) : fault.isStructural = false := by
  unfold readList at h
  split at h
  · cases h; rfl
  · exact isStructural_of_readListItems h

theorem isStructural_of_readValue {key : String} {tokens : List Token} (hplace : InPlace true tokens) {fault : Fault}
    (h : readValue key tokens = .error fault) : fault.isStructural = false := by
  obtain ⟨token, rest, rfl, hvalue⟩ := hplace.exists_value
  cases token with
  | word text => cases h
  | phrase text => cases h
  | leftParen =>
    cases hr : readList key rest with
    | ok p => rw [readValue, hr] at h; cases h
    | error fault' =>
      rw [readValue, hr] at h
      cases h
      exact isStructural_of_readList hr
  | relation r => simp [Token.literal?] at hvalue
  | rightParen => simp [Token.literal?] at hvalue
  | keyword c => simp [Token.literal?] at hvalue

theorem isStructural_of_readTerm {token : Token} {rest : List Token} (hplace : InPlace false (token :: rest))
    (hl : token ≠ .leftParen) (hr : token ≠ .rightParen) (hk : ∀ c, token ≠ .keyword c) {fault : Fault}
    (h : readTerm (token :: rest) = .error fault) : fault.isStructural = false := by
  unfold readTerm at h
  split at h
  · next key r after heq =>
    -- the value stands right behind the relation, where nothing else fits
    cases heq
    cases hv : readValue key after with
    | ok p => rw [hv] at h; cases h
    | error fault' =>
      rw [hv] at h
      cases h
      exact isStructural_of_readValue hplace.2.2 hv
  · cases h; rfl
  · cases h
  · cases h
  · cases h; rfl
  · -- no other token begins a term
    next hkeyed hquoted hword hphrase hrelation =>
    cases token with
    | word text => exact absurd rfl (hword text rest)
    | phrase text => exact absurd rfl (hphrase text rest)
    | relation r => exact absurd rfl (hrelation r rest)
    | leftParen => exact absurd rfl hl
    | rightParen => exact absurd rfl hr
    | keyword c => exact absurd rfl (hk c)

/-! ## Faults of a row -/

/-- What a row inside `depth` groups comes to: it ends at the end of its group and leaves settled tokens, or it has a
fault that is not structural. -/
def EndsWell (depth : Nat) : Except Fault (List (Connective × Formula Term) × List Token) → Prop
  | .ok (_, rest) => AtEnd rest ∧ Settled depth rest
  | .error fault => fault.isStructural = false

namespace EndsWell

variable {depth : Nat}

/-- The operands of the row do not matter. -/
theorem map {reading : Reading (List (Connective × Formula Term) × List Token)} (h : EndsWell depth reading.result)
    (f : List (Connective × Formula Term) → List (Connective × Formula Term)) :
    EndsWell depth (reading.map fun p => (f p.1, p.2)).result := by
  obtain ⟨terms, result⟩ := reading
  cases result with
  | ok p => exact h
  | error fault => exact h

theorem finish (place : Place) {tokens : List Token} (hend : AtEnd tokens) (h : Settled depth tokens) :
    EndsWell depth (place.finish tokens).result := by
  cases place with
  | start => rfl
  | afterOperand => exact ⟨hend, h⟩
  | afterConnective c => rfl

theorem connective (place : Place) (c : Connective) {fault : Fault} (h : place.connectiveFault? c = some fault) :
    fault.isStructural = false := by
  cases place <;> cases h <;> rfl

/-- A term in front of a row. -/
theorem term {place : Place} {token : Token} {after : List Token} (h : Settled depth (token :: after))
    (hl : token ≠ .leftParen) (hr : token ≠ .rightParen) (hk : ∀ c, token ≠ .keyword c)
    (ih : ∀ {behind}, behind.length < (token :: after).length → Settled depth behind →
      EndsWell depth (rowReading depth .afterOperand behind).result) :
    EndsWell depth (rowReading depth place (token :: after)).result := by
  cases ht : readTerm (token :: after) with
  | error fault =>
    rw [rowReading_of_readTerm_error depth place after hl hr hk ht]
    exact isStructural_of_readTerm h.inPlace hl hr hk ht
  | ok p =>
    obtain ⟨t, behind⟩ := p
    obtain ⟨-, htokens⟩ := tokens_of_readTerm ht
    have hbehind : Settled depth behind := by
      rw [htokens] at h
      exact h.behind_term
    rw [rowReading_of_readTerm depth place after hl ht]
    exact (ih (length_readTerm_lt ht) hbehind).map _

end EndsWell

/-- **A row of settled tokens ends well.** -/
theorem Settled.endsWell_rowReading {depth : Nat} {place : Place} {tokens : List Token} (h : Settled depth tokens) :
    EndsWell depth (rowReading depth place tokens).result := by
  -- a group is read twice, inside and behind it, so the induction is on the number of tokens
  induction hn : tokens.length using Nat.strongRecOn generalizing depth place tokens with
  | _ n ih =>
    subst hn
    cases tokens with
    | nil =>
      rw [rowReading_nil, if_pos h.depth_eq_zero]
      exact EndsWell.finish place (.inl rfl) h
    | cons token after =>
      have hafter : after.length < (token :: after).length := Nat.lt_succ_self _
      cases token with
      | rightParen =>
        rw [rowReading_rightParen, if_neg h.depth_ne_zero]
        exact EndsWell.finish place (atEnd_rightParen after) h
      | keyword c =>
        rw [rowReading_keyword]
        split
        · next fault hfault => exact EndsWell.connective place c hfault
        · exact ih _ hafter (h.tail rfl rfl) rfl
      | leftParen =>
        rw [rowReading_leftParen]
        split
        · rfl
        · next hlt =>
          have hinside : EndsWell (depth + 1) (rowReading (depth + 1) .start after).result :=
            ih _ hafter (h.tail rfl rfl) rfl
          cases hr : rowReading (depth + 1) .start after with
          | mk terms result =>
            rw [hr] at hinside
            cases result with
            | error fault => exact hinside
            | ok p =>
              obtain ⟨inner, inside⟩ := p
              obtain ⟨hend, hsettled⟩ := hinside
              obtain ⟨outside, rfl⟩ := hsettled.exists_rightParen hend
              have hlength : outside.length < (Token.leftParen :: after).length := by
                have hsuffix := (suffix_of_rowReading (by omega) hr).length_le
                simp only [List.length_cons] at hsuffix ⊢
                omega
              exact (ih _ hlength (hsettled.tail rfl rfl) rfl).map _
      | _ =>
        apply EndsWell.term h (by simp) (by simp) (by simp)
        intro behind hlt hbehind
        exact ih _ hlt hbehind rfl

/-- A query of settled tokens has no structural fault. -/
theorem Settled.isStructural_of_readQuery {tokens : List Token} (h : Settled 0 tokens) {fault : Fault}
    (hfault : (readQuery tokens).result = .error fault) : fault.isStructural = false := by
  by_cases hne : tokens = []
  · subst hne
    cases hfault
  · rw [readQuery_of_ne_nil hne] at hfault
    have hrow : EndsWell 0 (rowReading 0 .start tokens).result := h.endsWell_rowReading
    cases hr : rowReading 0 .start tokens with
    | mk terms result =>
      rw [hr] at hfault hrow
      cases result with
      | error fault' =>
        cases hfault
        exact hrow
      | ok p =>
        obtain ⟨row, rest⟩ := p
        obtain ⟨rfl | ⟨outside, rfl⟩, hrest⟩ := hrow
        · cases hfault
        · exact absurd rfl hrest.depth_ne_zero

/-! ## Queries -/

/-- The tokens of a text are settled. -/
theorem Lexes.settled {cs : List Char} {tokens : List Token} (h : Lexes 0 none cs tokens) : Settled 0 tokens :=
  ⟨h.closes, h.inPlace⟩

namespace Search

variable {s : Search} {tokens : List Token} {fault : Fault}

/-- What is wrong with a term is no fault of the query. -/
theorem term_ne_malformedQuery (s : Search) (t : Term) (fault : Fault) : s.term t ≠ .error (.malformedQuery fault) := by
  cases t with
  | body l => simp [term]
  | keyed key r value =>
    rw [term]
    split
    · split <;> simp
    · split <;> simp

/-- A fault of the query is the one that ended its reading. -/
theorem result_of_compileTokens (h : s.compileTokens tokens = .error (.malformedQuery fault)) :
    (readQuery tokens).result = .error fault := by
  cases hterms : (readQuery tokens).terms.mapM s.term with
  | error e =>
    rw [compileTokens_eq_error hterms] at h
    cases h
    obtain ⟨t, -, ht⟩ := Formula.exists_mem_of_mapM_eq_error hterms
    exact absurd ht (s.term_ne_malformedQuery t fault)
  | ok cs =>
    rw [compileTokens, compileReading] at h
    cases hr : (readQuery tokens).result with
    | error fault' =>
      simp only [hr, hterms] at h
      cases h
      rfl
    | ok result =>
      cases result with
      | none => simp only [hr] at h; cases h
      | some f =>
        rw [terms_of_readQuery hr] at hterms
        cases hf : f.traverse s.term with
        | ok e => simp only [hr, hf] at h; cases h
        | error e => cases hterms.symm.trans (Formula.traverse_eq_error_iff.1 hf)

/-- **Structural faults are found in the text.** In the tokens of a text the parentheses are balanced and each relation
has a value, so whatever the table has for their keys, the tokens never fail to compile for a parenthesis without its
partner, for a relation without a value or for want of a term. -/
theorem compileTokens_structural {query : String} {tokens : List Token} (h : tokenize query = .ok tokens) :
    WellFormed tokens ∧
      ∀ s : Search,
        s.compileTokens tokens ≠ .error (.malformedQuery .unmatchedLeft) ∧
        s.compileTokens tokens ≠ .error (.malformedQuery .unmatchedRight) ∧
        (∀ key, s.compileTokens tokens ≠ .error (.malformedQuery (.noValue key))) ∧
        s.compileTokens tokens ≠ .error (.malformedQuery .noTerm) := by
  have hlexes := tokenize_eq_ok_iff.1 h
  refine ⟨wellFormed_iff.2 ⟨hlexes.closes, hlexes.inPlace⟩, ?_⟩
  intro s
  have hsettled : ∀ fault, s.compileTokens tokens = .error (.malformedQuery fault) → fault.isStructural = false := by
    intro fault hfault
    exact hlexes.settled.isStructural_of_readQuery (result_of_compileTokens hfault)
  refine ⟨?_, ?_, ?_, ?_⟩
  · intro hfault
    cases hsettled _ hfault
  · intro hfault
    cases hsettled _ hfault
  · intro key hfault
    cases hsettled _ hfault
  · intro hfault
    cases hsettled _ hfault

/-- A list of values in a group has parentheses in it, where none can stand: the fault is that of the list. The first
token alone is a list that no text has, and there the reader does find a `(` without its partner. -/
theorem compileTokens_structural_nested_list :
    let s : Search := ⟨.traces, .reject⟩
    let tokens : List Token :=
      [.leftParen, .word "a", .relation .eq, .leftParen, .leftParen, .word "b", .rightParen, .rightParen, .rightParen]
    tokenize "(a=((b)))" = .ok tokens ∧
      s.compileTokens tokens = .error (.malformedQuery (.badListItem "a")) ∧
      s.compileTokens tokens ≠ .error (.malformedQuery .unmatchedLeft) ∧
      s.compileTokens [.leftParen] = .error (.malformedQuery .unmatchedLeft) := by
  intro s tokens
  have htokens : tokenize "(a=((b)))" = .ok tokens :=
    tokenize_eq_ok_iff.2 (.cons rfl rfl (.cons rfl rfl (.cons rfl rfl (.cons rfl rfl (.cons rfl rfl (.cons rfl rfl
      (.cons rfl rfl (.cons rfl rfl (.cons rfl rfl (.nil rfl))))))))))
  have hlist : readQuery tokens = .fail (.badListItem "a") := by
    have hinside : rowReading 1 .start tokens.tail = .fail (.badListItem "a") :=
      rowReading_of_readTerm_error 1 .start _ (by simp) (by simp) (by simp) rfl
    rw [readQuery_of_ne_nil (List.cons_ne_nil _ _), rowReading_leftParen, if_neg (by decide)]
    show ((rowReading 1 .start tokens.tail).andThen _).andThen _ = _
    rw [hinside]
    rfl
  have hopen : readQuery [.leftParen] = .fail .unmatchedLeft := by
    rw [readQuery_of_ne_nil (List.cons_ne_nil _ _), rowReading_leftParen, if_neg (by decide), rowReading_nil,
      if_neg (by decide)]
    rfl
  refine ⟨htokens, ?_, ((compileTokens_structural htokens).2 s).1, ?_⟩
  · rw [compileTokens, hlist]
    rfl
  · rw [compileTokens, hopen]
    rfl

end Search

end TelemetrySearch
