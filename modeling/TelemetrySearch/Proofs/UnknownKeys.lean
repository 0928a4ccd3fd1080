import TelemetrySearch.Proofs.FormulaShape
import TelemetrySearch.Proofs.Lexing
import TelemetrySearch.Proofs.QueryMeaning

/-!
# What to do with unknown keys

A search can refuse a key without a field or let its term match nothing. The two ways differ on such keys only.

* Every term that is met stands in the tokens, also in front of a fault (`tokens_infix_of_mem_terms`). The key of a term
  is thus one of the words with a relation behind it (`keysOf`, `mem_keysOf_of_infix`).
* What tokens compile to is settled by what their terms compile to, up to the first error (`Search.compileTokens_congr`,
  `Search.compileTokens_eq_error`).
* Two ways to compile terms that agree except where the first one fails give the same results up to there
  (`mapM_eq_or_error`). `Search.formula?_unknownKeys` is this for the two ways to treat unknown keys.
-/

namespace TelemetrySearch

/-! ## Terms stand in the tokens -/

theorem Reading.mem_terms_andThen {α β : Type} {r : Reading α} {f : α → Reading β} {t : Term}
    (h : t ∈ (r.andThen f).terms) : t ∈ r.terms ∨ ∃ a, r = ⟨r.terms, .ok a⟩ ∧ t ∈ (f a).terms := by
  obtain ⟨terms, result⟩ := r
  cases result with
  | error fault => exact .inl h
  | ok a =>
    rcases List.mem_append.1 h with h | h
    · exact .inl h
    · exact .inr ⟨a, rfl, h⟩

theorem Place.terms_finish (place : Place) (tokens : List Token) : (place.finish tokens).terms = [] := by
  cases place <;> rfl

/-- A row leaves the end of the tokens. -/
theorem suffix_of_rowReading {depth : Nat} {tokens rest : List Token} {terms : List Term}
    {row : List (Connective × Formula Term)} (hd : depth ≤ maxDepth)
    (h : rowReading depth .start tokens = ⟨terms, .ok (row, rest)⟩) : rest <:+ tokens := by
  obtain ⟨c, hc⟩ := exists_chain_of_rowReading hd h
  have htokens : tokens = c.tokens ++ rest := hc.tokens
  exact ⟨c.tokens, htokens.symm⟩

/-- The case of a term at the head of the tokens. -/
theorem tokens_infix_of_readTerm {depth : Nat} {place : Place} {token : Token} {after : List Token} {t : Term}
    (hl : token ≠ .leftParen) (hr : token ≠ .rightParen) (hk : ∀ c, token ≠ .keyword c)
    (h : t ∈ (rowReading depth place (token :: after)).terms)
    (ih : ∀ {behind}, behind.length < (token :: after).length →
      t ∈ (rowReading depth .afterOperand behind).terms → t.tokens <:+: behind) :
    t.tokens <:+: token :: after := by
  cases ht : readTerm (token :: after) with
  | error fault =>
    rw [rowReading_of_readTerm_error depth place after hl hr hk ht] at h
    cases h
  | ok p =>
    obtain ⟨first, behind⟩ := p
    rw [rowReading_of_readTerm depth place after hl ht] at h
    obtain ⟨-, htokens⟩ := tokens_of_readTerm ht
    rw [htokens]
    rcases List.mem_cons.1 h with rfl | h
    · exact (List.prefix_append _ behind).isInfix
    · have hbehind := ih (length_readTerm_lt ht) h
      exact hbehind.trans (List.suffix_append _ behind).isInfix

/-- **A term that is met stands in the tokens**, whether or not a fault comes later. -/
theorem tokens_infix_of_mem_terms {depth : Nat} {place : Place} {tokens : List Token} {t : Term}
    (h : t ∈ (rowReading depth place tokens).terms) : t.tokens <:+: tokens := by
  -- what is read behind a group is not the tail of the tokens, so the induction is on their number
  induction hn : tokens.length using Nat.strongRecOn generalizing depth place tokens with
  | _ n ih =>
    subst hn
    cases tokens with
    | nil =>
      rw [rowReading_nil] at h
      split at h
      · rw [Place.terms_finish] at h
        cases h
      · cases h
    | cons token after =>
      have hafter : after.length < (token :: after).length := Nat.lt_succ_self _
      cases token with
      | rightParen =>
        rw [rowReading_rightParen] at h
        split at h
        · cases h
        · rw [Place.terms_finish] at h
          cases h
      | keyword c =>
        rw [rowReading_keyword] at h
        split at h
        · cases h
        · exact (ih _ hafter h rfl).trans (List.suffix_cons _ after).isInfix
      | leftParen =>
        rw [rowReading_leftParen] at h
        split at h
        · cases h
        · next hlt =>
          rcases Reading.mem_terms_andThen h with h | ⟨⟨inner, inside⟩, hinner, h⟩
          · exact (ih _ hafter h rfl).trans (List.suffix_cons _ after).isInfix
          · have hsuffix := suffix_of_rowReading (by omega) hinner
            cases inside with
            | nil => cases h
            | cons close outside =>
              cases close with
              | rightParen =>
                have hout : outside <:+ after := (List.suffix_cons _ outside).trans hsuffix
                have houtside := ih _ (Nat.lt_of_le_of_lt hout.length_le hafter) h rfl
                exact houtside.trans (hout.trans (List.suffix_cons _ after)).isInfix
              | _ => cases h
      | _ =>
        apply tokens_infix_of_readTerm (by simp) (by simp) (by simp) h
        intro behind hlt hbehind
        exact ih _ hlt hbehind rfl

theorem tokens_infix_of_readQuery {tokens : List Token} {t : Term} (h : t ∈ (readQuery tokens).terms) :
    t.tokens <:+: tokens := by
  by_cases hne : tokens = []
  · subst hne
    cases h
  · rw [readQuery_of_ne_nil hne] at h
    rcases Reading.mem_terms_andThen h with h | ⟨⟨row, rest⟩, -, h⟩
    · exact tokens_infix_of_mem_terms h
    · -- behind the row there is only the end
      cases rest <;> cases h

/-! ## Keys -/

/-- The keys among the tokens: the words with a relation right behind them. -/
def keysOf : List Token → List String
  | [] => []
  | .word text :: rest => if startsWithRelation rest then text :: keysOf rest else keysOf rest
  | _ :: rest => keysOf rest

/-- The keys of a query; a text that cannot be cut into tokens has none. -/
def queryKeys (query : String) : List String :=
  match tokenize query with
  | .ok tokens => keysOf tokens
  | .error _ => []

theorem mem_keysOf_cons {key : String} {tokens : List Token} (h : key ∈ keysOf tokens) (token : Token) :
    key ∈ keysOf (token :: tokens) := by
  cases token with
  | word text =>
    rw [keysOf]
    split
    · exact List.mem_cons_of_mem text h
    · exact h
  | _ => exact h

/-- The key of a term is a key where the term stands. -/
theorem mem_keysOf_of_infix {key : String} {r : Relation} {v : Value} {tokens : List Token}
    (h : (Term.keyed key r v).tokens <:+: tokens) : key ∈ keysOf tokens := by
  obtain ⟨before, after, rfl⟩ := h
  induction before with
  | nil => exact List.mem_cons_self
  | cons token before ih => exact mem_keysOf_cons ih token

/-! ## Two ways to compile terms -/

namespace Formula

variable {α β ε : Type}

/-- Two functions that agree except where the first one fails: so do their results for a row. -/
theorem mapM_eq_or_error {f g : α → Except ε β} {fails : α → ε → Prop} {as : List α}
    (h : ∀ a ∈ as, f a = g a ∨ ∃ e, fails a e ∧ f a = .error e) :
    as.mapM f = as.mapM g ∨ ∃ a ∈ as, ∃ e, fails a e ∧ as.mapM f = .error e := by
  induction as with
  | nil => exact .inl rfl
  | cons a as ih =>
    obtain ⟨ha, has⟩ := List.forall_mem_cons.1 h
    rw [List.mapM_cons, List.mapM_cons]
    rcases ha with ha | ⟨e, hfails, ha⟩
    · rw [← ha]
      cases f a with
      | error e => exact .inl rfl
      | ok b =>
        rcases ih has with heq | ⟨a', ha', e, hfails, heq⟩
        · left
          rw [heq]
        · right
          exact ⟨a', List.mem_cons_of_mem a ha', e, hfails, by rw [heq]; rfl⟩
    · right
      exact ⟨a, List.mem_cons_self, e, hfails, by rw [ha]; rfl⟩

theorem exists_mem_of_mapM_eq_error {f : α → Except ε β} {as : List α} {e : ε} (h : as.mapM f = .error e) :
    ∃ a ∈ as, f a = .error e := by
  induction as with
  | nil => cases h
  | cons a as ih =>
    rw [List.mapM_cons] at h
    cases ha : f a with
    | error e' =>
      rw [ha] at h
      cases h
      exact ⟨a, List.mem_cons_self, ha⟩
    | ok b =>
      cases has : as.mapM f with
      | ok bs => rw [ha, has] at h; cases h
      | error e' =>
        rw [ha, has] at h
        cases h
        obtain ⟨a', ha', he⟩ := ih has
        exact ⟨a', List.mem_cons_of_mem a ha', he⟩

theorem traverse_eq_error_iff {g : α → Except ε β} {f : Formula α} {e : ε} :
    f.traverse g = .error e ↔ f.leaves.mapM g = .error e := by
  rw [← map_leaves_traverse]
  cases f.traverse g <;> simp [Except.map]

/-- Only what becomes of the leaves matters for a traversal. -/
theorem traverse_congr_mapM {g h : α → Except ε β} {f : Formula α} (hgh : f.leaves.mapM g = f.leaves.mapM h) :
    f.traverse g = f.traverse h := by
  cases hg : f.traverse g with
  | error e =>
    have he := traverse_eq_error_iff.1 hg
    rw [hgh] at he
    exact (traverse_eq_error_iff.2 he).symm
  | ok e =>
    have hleaves := map_leaves_of_traverse hg
    have hleaves' : f.leaves.map h = e.leaves.map .ok := by
      rw [← mapM_eq_ok_iff, ← hgh]
      exact mapM_eq_ok_iff.2 hleaves
    have hall : ∀ a ∈ f.leaves, g a = h a := List.map_inj_left.1 (hleaves.trans hleaves'.symm)
    rw [traverse_eq_ok_iff, map_congr hall] at hg
    exact (traverse_eq_ok_iff.2 hg).symm

end Formula

/-- What is read without a fault has the terms that were met as its leaves. -/
theorem terms_of_readQuery {tokens : List Token} {result : Option (Formula Term)}
    (h : (readQuery tokens).result = .ok result) :
    (readQuery tokens).terms = (result.map Formula.leaves).getD [] := by
  by_cases hne : tokens = []
  · subst hne
    cases h
    rfl
  · have hread : readQuery tokens = ⟨(readQuery tokens).terms, .ok result⟩ := by rw [← h]
    obtain ⟨q, rfl, hd, rfl⟩ := exists_query_of_readQuery hne hread
    rw [Query.readQuery_tokens hd]
    exact q.leaves_formula.symm

namespace Search

variable {s s' : Search} {tokens : List Token}

/-- Only what becomes of the terms matters for what becomes of the tokens. -/
theorem compileTokens_congr (h : (readQuery tokens).terms.mapM s.term = (readQuery tokens).terms.mapM s'.term) :
    s.compileTokens tokens = s'.compileTokens tokens := by
  rw [compileTokens, compileTokens, compileReading, compileReading]
  cases hr : (readQuery tokens).result with
  | error fault => simp only [h]
  | ok result =>
    cases result with
    | none => rfl
    | some f =>
      rw [terms_of_readQuery hr] at h
      simp only [Formula.traverse_congr_mapM h]

/-- An error of the terms comes before any fault. -/
theorem compileTokens_eq_error {e : Error} (h : (readQuery tokens).terms.mapM s.term = .error e) :
    s.compileTokens tokens = .error e := by
  rw [compileTokens, compileReading]
  cases hr : (readQuery tokens).result with
  | error fault => simp only [h]
  | ok result =>
    rw [terms_of_readQuery hr] at h
    cases result with
    | none => cases h
    | some f =>
      simp only [Formula.traverse_eq_error_iff.2 h]
      rfl

/-- An error is a fault or the error of a term. -/
theorem exists_of_compileTokens_eq_error {e : Error} (h : s.compileTokens tokens = .error e) :
    (∃ fault, e = .malformedQuery fault) ∨ ∃ t ∈ (readQuery tokens).terms, s.term t = .error e := by
  cases hterms : (readQuery tokens).terms.mapM s.term with
  | error e' =>
    rw [compileTokens_eq_error hterms] at h
    cases h
    exact .inr (Formula.exists_mem_of_mapM_eq_error hterms)
  | ok cs =>
    left
    rw [compileTokens, compileReading] at h
    cases hr : (readQuery tokens).result with
    | error fault =>
      simp only [hr, hterms] at h
      cases h
      exact ⟨fault, rfl⟩
    | ok result =>
      rw [terms_of_readQuery hr] at hterms
      simp only [hr] at h
      cases result with
      | none => cases h
      | some f =>
        cases hf : f.traverse s.term with
        | ok e' =>
          simp only [hf] at h
          cases h
        | error e' =>
          rw [Formula.traverse_eq_error_iff] at hf
          cases hterms.symm.trans hf

/-! ## The two ways to treat unknown keys -/

/-- A term compiles to the same in both ways, unless there is no field for its key. -/
theorem term_unknownKeys (table : Table) (t : Term) :
    term ⟨table, .reject⟩ t = term ⟨table, .matchNone⟩ t ∨
      ∃ key r v, t = .keyed key r v ∧ table.resolve key = none ∧
        term ⟨table, .reject⟩ t = .error (.unknownField key) := by
  cases t with
  | body l => exact .inl rfl
  | keyed key r v =>
    cases hf : table.resolve key with
    | some f =>
      left
      simp only [term, hf]
    | none =>
      right
      exact ⟨key, r, v, rfl, hf, by simp only [term, hf]⟩

/-- A key that matches nothing is no error. -/
theorem term_matchNone_ne (table : Table) (t : Term) (key : String) :
    term ⟨table, .matchNone⟩ t ≠ .error (.unknownField key) := by
  cases t with
  | body l => simp [term]
  | keyed key' r v =>
    rw [term]
    split
    · split <;> simp
    · simp

/-- What tokens compile to in the two ways. -/
theorem compileTokens_unknownKeys (table : Table) (tokens : List Token) :
    compileTokens ⟨table, .reject⟩ tokens = compileTokens ⟨table, .matchNone⟩ tokens ∨
      ∃ key ∈ keysOf tokens, table.resolve key = none ∧
        compileTokens ⟨table, .reject⟩ tokens = .error (.unknownField key) := by
  have hstep : ∀ t ∈ (readQuery tokens).terms, term ⟨table, .reject⟩ t = term ⟨table, .matchNone⟩ t ∨
      ∃ e, (∃ key r v, t = .keyed key r v ∧ table.resolve key = none ∧ e = Error.unknownField key) ∧
        term ⟨table, .reject⟩ t = .error e := by
    intro t _
    rcases term_unknownKeys table t with heq | ⟨key, r, v, ht, hnone, herror⟩
    · exact .inl heq
    · exact .inr ⟨_, ⟨key, r, v, ht, hnone, rfl⟩, herror⟩
  rcases Formula.mapM_eq_or_error hstep with heq | ⟨_, ht, _, ⟨key, r, v, rfl, hnone, rfl⟩, herror⟩
  · exact .inl (compileTokens_congr heq)
  · right
    have hkey := mem_keysOf_of_infix (tokens_infix_of_readQuery ht)
    exact ⟨key, hkey, hnone, compileTokens_eq_error herror⟩

/-- **The two ways to treat unknown keys differ on unknown keys only.** A query compiles to the same in both ways, or
the first one refuses it for one of its keys for which the table has no field. The second way never refuses a query for
such a key. If the table has a field for every key of the query, the two ways agree. -/
theorem formula?_unknownKeys (table : Table) (query : String) :
    (formula? ⟨table, .reject⟩ query = formula? ⟨table, .matchNone⟩ query ∨
      ∃ key ∈ queryKeys query, table.resolve key = none ∧
        formula? ⟨table, .reject⟩ query = .error (.unknownField key)) ∧
    (∀ key, formula? ⟨table, .matchNone⟩ query ≠ .error (.unknownField key)) ∧
    ((∀ key ∈ queryKeys query, table.resolve key ≠ none) →
      formula? ⟨table, .reject⟩ query = formula? ⟨table, .matchNone⟩ query) := by
  have hruns : formula? ⟨table, .reject⟩ query = formula? ⟨table, .matchNone⟩ query ∨
      ∃ key ∈ queryKeys query, table.resolve key = none ∧
        formula? ⟨table, .reject⟩ query = .error (.unknownField key) := by
    rw [formula?, formula?, queryKeys]
    cases tokenize query with
    | error fault => exact .inl rfl
    | ok tokens => exact compileTokens_unknownKeys table tokens
  refine ⟨hruns, ?_, ?_⟩
  · intro key h
    rw [formula?] at h
    cases ht : tokenize query with
    | error fault => rw [ht] at h; cases h
    | ok tokens =>
      rw [ht] at h
      rcases exists_of_compileTokens_eq_error h with ⟨fault, hfault⟩ | ⟨t, -, herror⟩
      · cases hfault
      · exact term_matchNone_ne table t key herror
  · intro hresolve
    rcases hruns with heq | ⟨key, hkey, hnone, -⟩
    · exact heq
    · exact absurd hnone (hresolve key hkey)

/-- The first way stops at the key without a field, where the second one goes on and finds the bad duration behind it.
With attributes there is a field for every key, and the two ways agree. -/
theorem formula?_unknownKeys_later_error :
    formula? ⟨{ Table.traces with attributes := [] }, .reject⟩ "nope=1 duration>fast" =
      .error (.unknownField "nope") ∧
    formula? ⟨{ Table.traces with attributes := [] }, .matchNone⟩ "nope=1 duration>fast" =
      .error (.invalidValue "duration" (.duration "fast" .malformed)) ∧
    formula? ⟨.traces, .reject⟩ "nope=1 duration>fast" = formula? ⟨.traces, .matchNone⟩ "nope=1 duration>fast" := by
  let q : Query :=
    ⟨.term (.keyed "nope" .eq (.single (.word "1"))) trivial,
      .cons none (.term (.keyed "duration" .gt (.single (.word "fast"))) trivial) .nil⟩
  have hq : tokenize "nope=1 duration>fast" = .ok q.tokens :=
    tokenize_eq_ok_iff.2 (.cons rfl rfl (.cons rfl rfl (.cons rfl rfl (.cons rfl rfl (.cons rfl rfl (.cons rfl rfl
      (.nil rfl)))))))
  have hd : q.depth ≤ maxDepth := by decide
  refine ⟨formula?_of_tokenize _ hq hd, formula?_of_tokenize _ hq hd, ?_⟩
  apply (formula?_unknownKeys .traces "nope=1 duration>fast").2.2
  have hkeys : queryKeys "nope=1 duration>fast" = ["nope", "duration"] := by
    rw [queryKeys, hq]
    rfl
  rw [hkeys]
  decide

end Search

end TelemetrySearch
