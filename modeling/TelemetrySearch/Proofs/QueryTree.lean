import TelemetrySearch.Proofs.FormulaValue
import TelemetrySearch.Query.Grammar

/-!
# Queries as trees

    query   := operand (connective? operand)*
    operand := "(" query ")" | term
    term    := word relation value | word | phrase
    value   := word | phrase | "(" literal ("OR" literal)* ")"

A `Query` is a derivation by this grammar. It has its tokens, its terms from left to right, the depth of its nested
groups, a truth value and a formula, each by recursion on the tree.

* The grammar is unambiguous: a list of tokens has at most one tree (`Query.tokens_injective`).
* The formula of a tree is proper, has the terms of the tree as its leaves and the value of the tree
  (`Query.leaves_formula`, `Query.value_formula`).
-/

namespace TelemetrySearch

/-! ## Terms as tokens -/

/-- A literal as a token. -/
def Literal.token (l : Literal) : Token := if l.quoted then .phrase l.text else .word l.text

/-- A row of literals with `OR` between them. -/
def Literal.rowTokens : List Literal → List Token
  | [] => []
  | [l] => [l.token]
  | l :: ls => l.token :: .keyword .or :: rowTokens ls

/-- The tokens of a value. -/
def Value.tokens : Value → List Token
  | single l => [l.token]
  | list ls => .leftParen :: Literal.rowTokens ls ++ [.rightParen]

/-- The tokens of a term. -/
def Term.tokens : Term → List Token
  | body l => [l.token]
  | keyed key r value => .word key :: .relation r :: value.tokens

/-- A term that the grammar has: a list of values is not empty. -/
def Term.IsWritten : Term → Prop
  | keyed _ _ (.list ls) => ls ≠ []
  | keyed _ _ (.single _) | body _ => True

/-- The tokens do not begin with a relation. -/
def NoRelationAhead (tokens : List Token) : Prop := ∀ r rest, tokens ≠ .relation r :: rest

/-- The tokens begin with the end of a group, or there are none. -/
def AtEnd (tokens : List Token) : Prop := tokens = [] ∨ ∃ rest, tokens = .rightParen :: rest

theorem AtEnd.noRelationAhead {tokens : List Token} (h : AtEnd tokens) : NoRelationAhead tokens := by
  rcases h with rfl | ⟨rest, rfl⟩ <;> intro r rest' h' <;> cases h'

theorem atEnd_rightParen (rest : List Token) : AtEnd (.rightParen :: rest) := .inr ⟨rest, rfl⟩

theorem noRelationAhead_keyword (c : Connective) (rest : List Token) : NoRelationAhead (.keyword c :: rest) :=
  fun _ _ h => by cases h

/-! ### Reading a term back -/

theorem Literal.literal?_token (l : Literal) : l.token.literal? = some l := by
  obtain ⟨text, quoted⟩ := l
  cases quoted <;> rfl

theorem eq_token_of_literal? {token : Token} {l : Literal} (h : token.literal? = some l) : token = l.token := by
  cases token <;> cases h <;> rfl

theorem readListItems_rowTokens (key : String) (rest : List Token) : ∀ {ls : List Literal}, ls ≠ [] →
    readListItems key (Literal.rowTokens ls ++ .rightParen :: rest) = .ok (ls, rest)
  | [l], _ => by simp [Literal.rowTokens, readListItems, Literal.literal?_token]
  | l :: m :: ls, _ => by
    have ih := readListItems_rowTokens key rest (List.cons_ne_nil m ls)
    show readListItems key (l.token :: .keyword .or :: (Literal.rowTokens (m :: ls) ++ .rightParen :: rest)) = _
    rw [readListItems.eq_def]
    simp only [Literal.literal?_token, ih]
    rfl

theorem readList_eq (key : String) {tokens : List Token} (h : ∀ rest, tokens ≠ .rightParen :: rest) :
    readList key tokens = readListItems key tokens := by
  unfold readList
  split
  · next rest => exact absurd rfl (h rest)
  · rfl

theorem rowTokens_append_ne {ls : List Literal} (h : ls ≠ []) (more rest : List Token) :
    Literal.rowTokens ls ++ more ≠ .rightParen :: rest := by
  obtain ⟨l, ls, rfl⟩ := List.exists_cons_of_ne_nil h
  obtain ⟨text, quoted⟩ := l
  intro h'
  cases ls <;> cases quoted <;> cases h'

/-- A written term is read back, unless a relation behind it makes a key of it. -/
theorem readTerm_tokens_append {t : Term} (ht : t.IsWritten) {rest : List Token} (hr : NoRelationAhead rest) :
    readTerm (t.tokens ++ rest) = .ok (t, rest) := by
  cases t with
  | body l =>
    obtain ⟨text, quoted⟩ := l
    cases rest with
    | nil => cases quoted <;> rfl
    | cons token rest =>
      cases token with
      | relation r => exact absurd rfl (hr r rest)
      | _ => cases quoted <;> rfl
  | keyed key r value =>
    cases value with
    | single l =>
      obtain ⟨text, quoted⟩ := l
      cases quoted <;> rfl
    | list ls =>
      have hl := readListItems_rowTokens key rest ht
      simp only [Term.tokens, Value.tokens, List.cons_append, List.append_assoc, List.nil_append, readTerm, readValue,
        readList_eq key (rowTokens_append_ne ht _), hl]
      rfl

theorem rowTokens_of_readListItems {key : String} {tokens rest : List Token} {ls : List Literal}
    (h : readListItems key tokens = .ok (ls, rest)) :
    ls ≠ [] ∧ tokens = Literal.rowTokens ls ++ .rightParen :: rest := by
  fun_induction readListItems key tokens generalizing ls rest with
  | case1 => cases h
  | case2 => cases h
  | case3 token l after hl =>
    cases h
    exact ⟨by simp, by rw [eq_token_of_literal? hl]; rfl⟩
  | case4 token l after hl ih =>
    cases hr : readListItems key after with
    | error => rw [hr] at h; cases h
    | ok p =>
      rw [hr] at h
      cases h
      obtain ⟨hne, htokens⟩ := ih hr
      obtain ⟨m, ms, hms⟩ := List.exists_cons_of_ne_nil hne
      refine ⟨by simp, ?_⟩
      rw [htokens, eq_token_of_literal? hl, hms]
      rfl
  | case5 => cases h

theorem tokens_of_readValue {key : String} {r : Relation} {tokens rest : List Token} {v : Value}
    (h : readValue key tokens = .ok (v, rest)) :
    (Term.keyed key r v).IsWritten ∧ tokens = v.tokens ++ rest := by
  unfold readValue at h
  split at h
  · cases h; exact ⟨trivial, rfl⟩
  · cases h; exact ⟨trivial, rfl⟩
  · next after =>
    cases hl : readList key after with
    | error => rw [hl] at h; cases h
    | ok p =>
      rw [hl] at h
      cases h
      unfold readList at hl
      split at hl
      · cases hl
      · obtain ⟨hne, htokens⟩ := rowTokens_of_readListItems hl
        exact ⟨hne, by simp [Value.tokens, htokens]⟩
  · cases h

/-- What is read as a term is written so. -/
theorem tokens_of_readTerm {tokens rest : List Token} {t : Term} (h : readTerm tokens = .ok (t, rest)) :
    t.IsWritten ∧ tokens = t.tokens ++ rest := by
  unfold readTerm at h
  split at h
  · next key r after =>
    cases hv : readValue key after with
    | error => rw [hv] at h; cases h
    | ok p =>
      rw [hv] at h
      cases h
      obtain ⟨hw, htokens⟩ := tokens_of_readValue (r := r) hv
      exact ⟨hw, by rw [htokens]; rfl⟩
  · cases h
  · cases h; exact ⟨trivial, rfl⟩
  · cases h; exact ⟨trivial, rfl⟩
  · cases h
  · cases h

/-! ## Trees -/

mutual

/-- What can stand between two connectives. -/
inductive Operand where
  | term (term : Term) (written : term.IsWritten)
  /-- A query in parentheses: its first operand and the chain behind it. -/
  | group (first : Operand) (more : Chain)

/-- Operands that go on a row, each with the connective that is written before it, if there is one. -/
inductive Chain where
  | nil
  | cons (link : Option Connective) (operand : Operand) (more : Chain)

end

/-- A query. -/
structure Query where
  first : Operand
  more : Chain

mutual

/-- The tokens of an operand. -/
def Operand.tokens : Operand → List Token
  | .term t _ => t.tokens
  | .group first more => .leftParen :: first.tokens ++ more.tokens ++ [.rightParen]

/-- The tokens of a chain. -/
def Chain.tokens : Chain → List Token
  | .nil => []
  | .cons link operand more => (link.map Token.keyword).toList ++ operand.tokens ++ more.tokens

end

mutual

/-- The terms of an operand from left to right. -/
def Operand.terms : Operand → List Term
  | .term t _ => [t]
  | .group first more => first.terms ++ more.terms

/-- The terms of a chain from left to right. -/
def Chain.terms : Chain → List Term
  | .nil => []
  | .cons _ operand more => operand.terms ++ more.terms

end

mutual

/-- How deep groups nest in an operand; the list of a value is no group. -/
def Operand.depth : Operand → Nat
  | .term _ _ => 0
  | .group first more => max first.depth more.depth + 1

/-- How deep groups nest in a chain. -/
def Chain.depth : Chain → Nat
  | .nil => 0
  | .cons _ operand more => max operand.depth more.depth

end

mutual

/-- The value of an operand whose term `t` has the value `w t`; a group has the value of what it holds. -/
def Operand.value (w : Term → Bool) : Operand → Bool
  | .term t _ => w t
  | .group first more => rowValue (first.value w) (more.values w)

/-- The values of the operands of a chain; operands side by side are joined by `AND`. -/
def Chain.values (w : Term → Bool) : Chain → List (Connective × Bool)
  | .nil => []
  | .cons link operand more => (link.getD .and, operand.value w) :: more.values w

end

mutual

/-- The formula of an operand. -/
def Operand.formula : Operand → Formula Term
  | .term t _ => .leaf t
  | .group first more => .ofOperands ((.and, first.formula) :: more.row)

/-- The formulas of the operands of a chain. -/
def Chain.row : Chain → List (Connective × Formula Term)
  | .nil => []
  | .cons link operand more => (link.getD .and, operand.formula) :: more.row

end

namespace Query

/-- The tokens of a query. -/
def tokens (q : Query) : List Token := q.first.tokens ++ q.more.tokens

/-- The terms of a query from left to right. -/
def terms (q : Query) : List Term := q.first.terms ++ q.more.terms

/-- How deep groups nest in a query. -/
def depth (q : Query) : Nat := max q.first.depth q.more.depth

/-- The value of a query whose term `t` has the value `w t`: the `OR`, over the runs between two `OR`, of the `AND` of
the operands of the run. -/
def value (w : Term → Bool) (q : Query) : Bool := rowValue (q.first.value w) (q.more.values w)

/-- The formula of a query. -/
def formula (q : Query) : Formula Term := .ofOperands ((.and, q.first.formula) :: q.more.row)

end Query

/-! ## The grammar is unambiguous -/

/-- The tokens that an operand can begin with. -/
def Token.opensOperand : Token → Bool
  | .word _ | .phrase _ | .leftParen => true
  | .relation _ | .rightParen | .keyword _ => false

theorem Literal.opensOperand_token (l : Literal) : l.token.opensOperand = true := by
  obtain ⟨text, quoted⟩ := l
  cases quoted <;> rfl

theorem Operand.tokens_eq_cons (o : Operand) :
    ∃ token rest, o.tokens = token :: rest ∧ token.opensOperand = true := by
  cases o with
  | term t _ =>
    cases t with
    | body l => exact ⟨l.token, [], rfl, l.opensOperand_token⟩
    | keyed key r v => exact ⟨.word key, .relation r :: v.tokens, rfl, rfl⟩
  | group first more => exact ⟨.leftParen, first.tokens ++ more.tokens ++ [.rightParen], rfl, rfl⟩

/-- A term does not begin like a group. -/
theorem Term.tokens_append_ne_leftParen (t : Term) (rest rest' : List Token) :
    t.tokens ++ rest ≠ .leftParen :: rest' := by
  intro h
  cases t with
  | body l =>
    obtain ⟨text, quoted⟩ := l
    cases quoted <;> cases h
  | keyed => cases h

/-- Nothing else than the beginning of an operand stands where an operand stands. -/
theorem Operand.tokens_append_ne (o : Operand) (token : Token) (rest rest' : List Token)
    (h : token.opensOperand = false) : o.tokens ++ rest ≠ token :: rest' := by
  obtain ⟨first, more, ho, hfirst⟩ := o.tokens_eq_cons
  rw [ho]
  rintro ⟨⟩
  rw [hfirst] at h
  cases h

theorem Operand.not_atEnd (o : Operand) (rest : List Token) : ¬AtEnd (o.tokens ++ rest) := by
  rintro (h | ⟨rest', h⟩)
  · obtain ⟨first, more, ho, -⟩ := o.tokens_eq_cons
    rw [ho] at h
    cases h
  · exact o.tokens_append_ne .rightParen rest rest' rfl h

theorem Operand.noRelationAhead (o : Operand) (rest : List Token) : NoRelationAhead (o.tokens ++ rest) :=
  fun r rest' => o.tokens_append_ne (.relation r) rest rest' rfl

theorem Chain.noRelationAhead (c : Chain) {rest : List Token} (h : NoRelationAhead rest) :
    NoRelationAhead (c.tokens ++ rest) := by
  cases c with
  | nil => exact h
  | cons link o more =>
    cases link with
    | none => simpa [Chain.tokens] using o.noRelationAhead (more.tokens ++ rest)
    | some k => exact noRelationAhead_keyword k _

/-- At the end of a query no chain goes on. -/
theorem Chain.not_atEnd_cons (link : Option Connective) (o : Operand) (more : Chain) (rest : List Token) :
    ¬AtEnd ((Chain.cons link o more).tokens ++ rest) := by
  cases link with
  | none => simpa [Chain.tokens] using o.not_atEnd (more.tokens ++ rest)
  | some k => rintro (h | ⟨rest', h⟩) <;> cases h

mutual

theorem Operand.tokens_append_inj : ∀ {o o' : Operand} {rest rest' : List Token}, NoRelationAhead rest →
    NoRelationAhead rest' → o.tokens ++ rest = o'.tokens ++ rest' → o = o' ∧ rest = rest'
  | .term t ht, .term t' ht', rest, rest', hr, hr', h => by
    have := readTerm_tokens_append ht hr
    rw [show t.tokens ++ rest = t'.tokens ++ rest' from h, readTerm_tokens_append ht' hr'] at this
    cases this
    exact ⟨rfl, rfl⟩
  | .term t ht, .group first more, rest, rest', _, _, h => absurd h (t.tokens_append_ne_leftParen rest _)
  | .group first more, .term t ht, rest, rest', _, _, h => absurd h.symm (t.tokens_append_ne_leftParen rest' _)
  | .group first more, .group first' more', rest, rest', _, _, h => by
    simp only [Operand.tokens, List.cons_append, List.append_assoc, List.nil_append, List.cons.injEq, true_and] at h
    obtain ⟨rfl, hmore⟩ := Operand.tokens_append_inj (more.noRelationAhead (atEnd_rightParen rest).noRelationAhead)
      (more'.noRelationAhead (atEnd_rightParen rest').noRelationAhead) h
    obtain ⟨rfl, hrest⟩ := Chain.tokens_append_inj (atEnd_rightParen rest) (atEnd_rightParen rest') hmore
    cases hrest
    exact ⟨rfl, rfl⟩

theorem Chain.tokens_append_inj : ∀ {c c' : Chain} {rest rest' : List Token}, AtEnd rest → AtEnd rest' →
    c.tokens ++ rest = c'.tokens ++ rest' → c = c' ∧ rest = rest'
  | .nil, .nil, _, _, _, _, h => ⟨rfl, h⟩
  | .nil, .cons link o more, rest, rest', hr, _, h => by
    rw [show rest = _ from h] at hr
    exact absurd hr (Chain.not_atEnd_cons link o more rest')
  | .cons link o more, .nil, rest, rest', _, hr', h => by
    rw [show rest' = _ from h.symm] at hr'
    exact absurd hr' (Chain.not_atEnd_cons link o more rest)
  | .cons link o more, .cons link' o' more', rest, rest', hr, hr', h => by
    simp only [Chain.tokens, List.append_assoc] at h
    -- a written connective is no beginning of an operand, so both chains have it or neither
    have hlink : link = link' ∧ o.tokens ++ (more.tokens ++ rest) = o'.tokens ++ (more'.tokens ++ rest') := by
      cases link with
      | none =>
        cases link' with
        | none => exact ⟨rfl, h⟩
        | some k' => exact absurd h (o.tokens_append_ne (.keyword k') _ _ rfl)
      | some k =>
        cases link' with
        | none => exact absurd h.symm (o'.tokens_append_ne (.keyword k) _ _ rfl)
        | some k' =>
          simp only [Option.map_some, Option.toList_some, List.singleton_append, List.cons.injEq,
            Token.keyword.injEq] at h
          exact ⟨congrArg some h.1, h.2⟩
    obtain ⟨rfl, ho⟩ := hlink
    obtain ⟨rfl, hmore⟩ := Operand.tokens_append_inj (more.noRelationAhead hr.noRelationAhead)
      (more'.noRelationAhead hr'.noRelationAhead) ho
    obtain ⟨rfl, hrest⟩ := Chain.tokens_append_inj hr hr' hmore
    exact ⟨rfl, hrest⟩

end

/-- **A list of tokens is that of at most one query.** -/
theorem Query.tokens_injective {q q' : Query} (h : q.tokens = q'.tokens) : q = q' := by
  obtain ⟨first, more⟩ := q
  obtain ⟨first', more'⟩ := q'
  have hnil : AtEnd [] := .inl rfl
  have h' : first.tokens ++ (more.tokens ++ []) = first'.tokens ++ (more'.tokens ++ []) := by
    simpa [Query.tokens] using h
  obtain ⟨rfl, hmore⟩ := Operand.tokens_append_inj (more.noRelationAhead hnil.noRelationAhead)
    (more'.noRelationAhead hnil.noRelationAhead) h'
  obtain ⟨rfl, -⟩ := Chain.tokens_append_inj hnil hnil hmore
  rfl

/-! ## The formula of a tree -/

mutual

theorem Operand.leaves_formula : ∀ o : Operand, o.formula.leaves = o.terms
  | .term t _ => rfl
  | .group first more => by
    rw [Operand.formula, Formula.leaves_ofOperands, List.flatMap_cons, Operand.leaves_formula first,
      Chain.leaves_row more, Operand.terms]

theorem Chain.leaves_row : ∀ c : Chain, (c.row.flatMap fun p => p.2.leaves) = c.terms
  | .nil => rfl
  | .cons link o more => by
    rw [Chain.row, List.flatMap_cons, Operand.leaves_formula o, Chain.leaves_row more, Chain.terms]

end

/-- The leaves of the formula are the terms, in the order of the query. -/
theorem Query.leaves_formula (q : Query) : q.formula.leaves = q.terms :=
  (Operand.group q.first q.more).leaves_formula

mutual

theorem Operand.proper_formula : ∀ o : Operand, o.formula.Proper
  | .term t _ => .leaf t
  | .group first more =>
    .ofOperands (List.cons_ne_nil _ _) (List.forall_mem_cons.2 ⟨Operand.proper_formula first, Chain.proper_row more⟩)

theorem Chain.proper_row : ∀ (c : Chain), ∀ p ∈ c.row, p.2.Proper
  | .nil => List.forall_mem_nil _
  | .cons _ o more => List.forall_mem_cons.2 ⟨Operand.proper_formula o, Chain.proper_row more⟩

end

/-- The operands of a row are proper. -/
theorem proper_of_mem_row (o : Operand) (c : Chain) : ∀ p ∈ (Connective.and, o.formula) :: c.row, p.2.Proper :=
  List.forall_mem_cons.2 ⟨o.proper_formula, c.proper_row⟩

mutual

theorem Operand.value_formula (w : Term → Bool) : ∀ o : Operand, o.formula.value w = o.value w
  | .term t _ => rfl
  | .group first more => by
    rw [Operand.formula, Formula.value_ofOperands w _ _ _ (proper_of_mem_row first more),
      Operand.value_formula w first, Chain.values_row w more, Operand.value]

theorem Chain.values_row (w : Term → Bool) : ∀ c : Chain, c.row.map (Prod.map id (Formula.value w)) = c.values w
  | .nil => rfl
  | .cons link o more => by
    rw [Chain.row, List.map_cons, Chain.values_row w more, Prod.map_apply, Operand.value_formula w o, Chain.values,
      id_eq]

end

/-- **The formula of a query has the value of the query.** -/
theorem Query.value_formula (w : Term → Bool) (q : Query) : q.formula.value w = q.value w :=
  (Operand.group q.first q.more).value_formula w

end TelemetrySearch
