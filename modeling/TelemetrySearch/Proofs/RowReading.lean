import TelemetrySearch.Proofs.QueryTree

/-!
# Reading tokens and reading trees

`readRow` carries a bound on the tokens it leaves in its result; `rowReading` is the same reading without the bound, and
`rowReading_nil` to `rowReading_of_readTerm_error` say what it does with each kind of first token.

* Complete: the tokens of a tree that nests at most `maxDepth` deep are read as the terms and the formula of the tree
  (`Operand.isRead`, `Chain.isRead`, `Query.readQuery_tokens`).
* Sound: what is read to its end without a fault are the tokens of a tree (`exists_chain_of_rowReading`,
  `exists_query_of_readQuery`).
-/

namespace TelemetrySearch

/-! ## Readings -/

namespace Reading

variable {α β γ : Type}

/-- Meets some terms before it goes on. -/
def after (terms : List Term) (reading : Reading α) : Reading α := ⟨terms ++ reading.terms, reading.result⟩

theorem meet_eq_after (term : Term) (r : Reading α) : r.meet term = r.after [term] := rfl

theorem map_map (f : α → β) (g : β → γ) (r : Reading α) : (r.map f).map g = r.map (g ∘ f) := by
  obtain ⟨terms, result⟩ := r
  cases result <;> rfl

theorem map_done (f : α → β) (a : α) : (done a).map f = done (f a) := rfl

theorem map_after (f : α → β) (terms : List Term) (r : Reading α) : (r.after terms).map f = (r.map f).after terms := rfl

theorem after_after (terms terms' : List Term) (r : Reading α) :
    (r.after terms').after terms = r.after (terms ++ terms') := by
  simp [after]

theorem andThen_after (terms : List Term) (r : Reading α) (f : α → Reading β) :
    (r.after terms).andThen f = (r.andThen f).after terms := by
  obtain ⟨terms', result⟩ := r
  cases result <;> simp [andThen, after]

theorem andThen_map (f : α → β) (r : Reading α) (g : β → Reading γ) : (r.map f).andThen g = r.andThen (g ∘ f) := by
  obtain ⟨terms, result⟩ := r
  cases result <;> rfl

theorem map_andThen (r : Reading α) (f : α → Reading β) (g : β → γ) :
    (r.andThen f).map g = r.andThen fun a => (f a).map g := by
  obtain ⟨terms, result⟩ := r
  cases result <;> rfl

theorem done_andThen (a : α) (f : α → Reading β) : (done a).andThen f = f a := rfl

/-- What a reading that succeeds has done before its last part. -/
theorem eq_ok_of_map {r : Reading α} {f : α → β} {terms : List Term} {b : β} (h : r.map f = ⟨terms, .ok b⟩) :
    ∃ a, r = ⟨terms, .ok a⟩ ∧ f a = b := by
  obtain ⟨terms', result⟩ := r
  cases result with
  | error fault => cases h
  | ok a => cases h; exact ⟨a, rfl, rfl⟩

theorem eq_ok_of_after {r : Reading α} {terms terms' : List Term} {a : α} (h : r.after terms = ⟨terms', .ok a⟩) :
    ∃ terms'', r = ⟨terms'', .ok a⟩ ∧ terms' = terms ++ terms'' := by
  obtain ⟨terms'', result⟩ := r
  cases h
  exact ⟨terms'', rfl, rfl⟩

theorem eq_ok_of_andThen {r : Reading α} {f : α → Reading β} {terms : List Term} {b : β}
    (h : r.andThen f = ⟨terms, .ok b⟩) :
    ∃ a terms₁ terms₂, r = ⟨terms₁, .ok a⟩ ∧ f a = ⟨terms₂, .ok b⟩ ∧ terms = terms₁ ++ terms₂ := by
  obtain ⟨terms₁, result⟩ := r
  cases result with
  | error fault => cases h
  | ok a =>
    cases hf : f a with
    | mk terms₂ result =>
      simp only [andThen, hf, mk.injEq] at h
      obtain ⟨rfl, rfl⟩ := h
      exact ⟨a, terms₁, terms₂, rfl, hf, rfl⟩

end Reading

/-! ## One step of a row -/

/-- `readRow` without the bound on what it leaves. -/
def rowReading (depth : Nat) (place : Place) (tokens : List Token) :
    Reading (List (Connective × Formula Term) × List Token) :=
  (readRow depth place tokens).map fun p => (p.1, p.2.1)

/-- The row that ends in front of the tokens. -/
def Place.finish (place : Place) (tokens : List Token) : Reading (List (Connective × Formula Term) × List Token) :=
  match place.endFault? with
  | some fault => .fail fault
  | none => .done ([], tokens)

theorem Place.finish_afterOperand (tokens : List Token) : Place.afterOperand.finish tokens = .done ([], tokens) := rfl

section Steps

variable (depth : Nat) (place : Place) (rest : List Token)

theorem rowReading_nil :
    rowReading depth place [] = if depth = 0 then place.finish [] else .fail .unmatchedLeft := by
  rw [rowReading, readRow, Row.finish, Place.finish]
  split
  · cases place.endFault? <;> rfl
  · rfl

theorem rowReading_rightParen : rowReading depth place (.rightParen :: rest) =
    if depth = 0 then .fail .unmatchedRight else place.finish (.rightParen :: rest) := by
  rw [rowReading, readRow, Row.finish, Place.finish]
  split
  · rfl
  · cases place.endFault? <;> rfl

theorem rowReading_keyword (c : Connective) : rowReading depth place (.keyword c :: rest) =
    match place.connectiveFault? c with
    | some fault => .fail fault
    | none => rowReading depth (.afterConnective c) rest := by
  rw [rowReading, readRow]
  cases place.connectiveFault? c with
  | some fault => rfl
  | none => simp only [rowReading, Reading.map_map]; rfl

theorem rowReading_leftParen : rowReading depth place (.leftParen :: rest) =
    if maxDepth ≤ depth then .fail .tooDeep
    else (rowReading (depth + 1) .start rest).andThen fun p =>
      match p.2 with
      | .rightParen :: outside => (rowReading depth .afterOperand outside).map fun q =>
          ((place.link, .ofOperands p.1) :: q.1, q.2)
      | _ => .fail .unmatchedLeft := by
  rw [rowReading, readRow]
  split
  · rfl
  · rw [Reading.map_andThen, rowReading, Reading.andThen_map]
    congr 1
    funext p
    obtain ⟨inner, inside, h⟩ := p
    cases inside with
    | nil => rfl
    | cons token outside =>
      cases token with
      | rightParen =>
        simp only [Function.comp, rowReading, Reading.map_map]
        rfl
      | _ => rfl

theorem rowReading_of_readTerm {token : Token} {term : Term} {behind : List Token} (hl : token ≠ .leftParen)
    (h : readTerm (token :: rest) = .ok (term, behind)) : rowReading depth place (token :: rest) =
      ((rowReading depth .afterOperand behind).map fun p => ((place.link, .leaf term) :: p.1, p.2)).after [term] := by
  rw [rowReading, readRow]
  · split
    · next h' => rw [h] at h'; cases h'
    · next h' =>
      cases h.symm.trans h'
      rw [Reading.meet_eq_after, Reading.map_after, Reading.map_map, rowReading, Reading.map_map]
      rfl
  · rintro rfl; cases h
  · rintro c rfl; cases h
  · exact hl

theorem rowReading_of_readTerm_error {token : Token} {fault : Fault} (hl : token ≠ .leftParen)
    (hr : token ≠ .rightParen) (hk : ∀ c, token ≠ .keyword c) (h : readTerm (token :: rest) = .error fault) :
    rowReading depth place (token :: rest) = .fail fault := by
  rw [rowReading, readRow]
  · split
    · next h' => cases h.symm.trans h'; rfl
    · next h' => cases h.symm.trans h'
  · exact hr
  · exact hk
  · exact hl

end Steps

/-! ## Trees are read -/

/-- The tokens of an operand are read as its terms and its formula, and the row goes on behind it. -/
def Operand.IsRead (o : Operand) : Prop :=
  ∀ (depth : Nat) (place : Place) (rest : List Token), depth + o.depth ≤ maxDepth → NoRelationAhead rest →
    rowReading depth place (o.tokens ++ rest) =
      ((rowReading depth .afterOperand rest).map fun p => ((place.link, o.formula) :: p.1, p.2)).after o.terms

/-- The tokens of a chain are read as its terms and its row, and the row goes on behind it. -/
def Chain.IsRead (c : Chain) : Prop :=
  ∀ (depth : Nat) (rest : List Token), depth + c.depth ≤ maxDepth → NoRelationAhead rest →
    rowReading depth .afterOperand (c.tokens ++ rest) =
      ((rowReading depth .afterOperand rest).map fun p => (c.row ++ p.1, p.2)).after c.terms

/-- An operand and the chain behind it. -/
theorem Operand.IsRead.append {o : Operand} {c : Chain} (ho : o.IsRead) (hc : c.IsRead) {depth : Nat} (place : Place)
    {rest : List Token} (hd : depth + max o.depth c.depth ≤ maxDepth) (hr : NoRelationAhead rest) :
    rowReading depth place (o.tokens ++ (c.tokens ++ rest)) =
      ((rowReading depth .afterOperand rest).map fun p => ((place.link, o.formula) :: c.row ++ p.1, p.2)).after
        (o.terms ++ c.terms) := by
  rw [ho depth place _ (by omega) (c.noRelationAhead hr), hc depth rest (by omega) hr, Reading.map_after,
    Reading.map_map, Reading.after_after]
  rfl

theorem Operand.isRead_term (t : Term) (ht : t.IsWritten) : (Operand.term t ht).IsRead := by
  intro depth place rest _ hr
  obtain ⟨token, more, htokens, -⟩ := (Operand.term t ht).tokens_eq_cons
  have hread := readTerm_tokens_append ht hr
  rw [Operand.tokens] at htokens
  rw [Operand.tokens, htokens, List.cons_append]
  rw [htokens, List.cons_append] at hread
  refine rowReading_of_readTerm depth place _ ?_ hread
  rintro rfl
  cases hread

theorem Operand.isRead_group {first : Operand} {more : Chain} (hfirst : first.IsRead) (hmore : more.IsRead) :
    (Operand.group first more).IsRead := by
  intro depth place rest hd _
  rw [Operand.depth] at hd
  have hinner : rowReading (depth + 1) .start (first.tokens ++ (more.tokens ++ .rightParen :: rest)) =
      .after (first.terms ++ more.terms) (.done ((.and, first.formula) :: more.row, .rightParen :: rest)) := by
    rw [hfirst.append hmore .start (by omega) (atEnd_rightParen rest).noRelationAhead, rowReading_rightParen,
      if_neg (by omega), Place.finish_afterOperand, Reading.map_done, List.append_nil]
    rfl
  simp only [Operand.tokens, List.cons_append, List.append_assoc, List.nil_append]
  rw [rowReading_leftParen, if_neg (by omega), hinner, Reading.andThen_after, Reading.done_andThen, Operand.terms,
    Operand.formula]

theorem Chain.isRead_nil : Chain.nil.IsRead := by
  intro depth rest _ _
  rw [Chain.tokens, Chain.terms, List.nil_append]
  cases h : rowReading depth .afterOperand rest with
  | mk terms result => cases result <;> rfl

theorem Chain.isRead_cons {link : Option Connective} {o : Operand} {more : Chain} (ho : o.IsRead)
    (hmore : more.IsRead) : (Chain.cons link o more).IsRead := by
  intro depth rest hd hr
  rw [Chain.depth] at hd
  rw [Chain.tokens, Chain.row, Chain.terms, List.append_assoc, List.append_assoc]
  cases link with
  | none => exact ho.append hmore .afterOperand hd hr
  | some k =>
    exact (rowReading_keyword depth .afterOperand _ k).trans (ho.append hmore (.afterConnective k) hd hr)

mutual

/-- **Every operand is read.** -/
theorem Operand.isRead : ∀ o : Operand, o.IsRead
  | .term t ht => Operand.isRead_term t ht
  | .group first more => Operand.isRead_group (Operand.isRead first) (Chain.isRead more)

/-- **Every chain is read.** -/
theorem Chain.isRead : ∀ c : Chain, c.IsRead
  | .nil => Chain.isRead_nil
  | .cons _ o more => Chain.isRead_cons (Operand.isRead o) (Chain.isRead more)

end

theorem readQuery_of_ne_nil {tokens : List Token} (h : tokens ≠ []) :
    readQuery tokens = (rowReading 0 .start tokens).andThen fun p =>
      if p.2.isEmpty then .done (some (.ofOperands p.1)) else .fail .unmatchedRight := by
  rw [readQuery, rowReading, Reading.andThen_map]
  · rfl
  · exact h

theorem Query.tokens_ne_nil (q : Query) : q.tokens ≠ [] := by
  obtain ⟨token, rest, h, -⟩ := q.first.tokens_eq_cons
  rw [Query.tokens, h]
  exact List.cons_ne_nil _ _

/-- **The tokens of a query are read as its terms and its formula.** -/
theorem Query.readQuery_tokens {q : Query} (hd : q.depth ≤ maxDepth) :
    readQuery q.tokens = ⟨q.terms, .ok (some q.formula)⟩ := by
  have hnil : NoRelationAhead [] := AtEnd.noRelationAhead (.inl rfl)
  have hrow : rowReading 0 .start (q.first.tokens ++ (q.more.tokens ++ [])) =
      .after (q.first.terms ++ q.more.terms) (.done ((.and, q.first.formula) :: q.more.row, [])) := by
    rw [q.first.isRead.append q.more.isRead .start (by simpa [Query.depth] using hd) hnil, rowReading_nil, if_pos rfl,
      Place.finish_afterOperand, Reading.map_done, List.append_nil]
    rfl
  rw [readQuery_of_ne_nil q.tokens_ne_nil, Query.tokens, ← List.append_nil q.more.tokens, hrow, Reading.andThen_after,
    Reading.done_andThen]
  simp [Reading.after, Reading.done, Query.terms, Query.formula]

/-! ## What is read are trees -/

/-- The connective that has been read and belongs to the next operand. -/
def Place.link? : Place → Option Connective
  | .start | .afterOperand => none
  | .afterConnective c => some c

theorem Place.getD_link? (place : Place) : place.link?.getD .and = place.link := by
  cases place <;> rfl

/-- The chain `c` is what a row has been read as, from `place` to `rest`. -/
structure ReadAs (depth : Nat) (place : Place) (tokens : List Token) (terms : List Term)
    (row : List (Connective × Formula Term)) (rest : List Token) (c : Chain) : Prop where
  tokens : (place.link?.map Token.keyword).toList ++ tokens = c.tokens ++ rest
  terms : c.terms = terms
  row : c.row = row
  depth : depth + c.depth ≤ maxDepth
  start : place = .start → ∃ o more, c = .cons none o more

/-- An operand in front of a chain. -/
theorem ReadAs.cons {depth : Nat} {place : Place} {behind rest : List Token} {terms : List Term}
    {row : List (Connective × Formula Term)} {o : Operand} {c : Chain} (ho : depth + o.depth ≤ maxDepth)
    (h : ReadAs depth .afterOperand behind terms row rest c) :
    ReadAs depth place (o.tokens ++ behind) (o.terms ++ terms) ((place.link, o.formula) :: row) rest
      (.cons place.link? o c) where
  tokens := by
    rw [show behind = c.tokens ++ rest from h.tokens, Chain.tokens]
    simp only [List.append_assoc]
  terms := by rw [Chain.terms, h.terms]
  row := by rw [Chain.row, h.row, place.getD_link?]
  depth := by
    have := h.depth
    rw [Chain.depth]
    omega
  start := by
    rintro rfl
    exact ⟨o, c, rfl⟩

/-- A row ends without a fault only behind an operand. -/
theorem ReadAs.of_finish {depth : Nat} {place : Place} {tokens rest : List Token} {terms : List Term}
    {row : List (Connective × Formula Term)} (hd : depth ≤ maxDepth)
    (h : place.finish tokens = ⟨terms, .ok (row, rest)⟩) : ReadAs depth place tokens terms row rest .nil := by
  cases place with
  | start => cases h
  | afterConnective c => cases h
  | afterOperand =>
    cases h
    exact ⟨rfl, rfl, rfl, hd, fun h => by cases h⟩

/-- A term in front of a chain. -/
theorem ReadAs.exists_of_term {depth : Nat} {place : Place} {token : Token} {after rest : List Token}
    {terms : List Term} {row : List (Connective × Formula Term)} (hl : token ≠ .leftParen) (hr : token ≠ .rightParen)
    (hk : ∀ c, token ≠ .keyword c)
    (h : rowReading depth place (token :: after) = ⟨terms, .ok (row, rest)⟩)
    (ih : ∀ {behind terms' row'}, behind.length < (token :: after).length →
      rowReading depth .afterOperand behind = ⟨terms', .ok (row', rest)⟩ →
        ∃ c, ReadAs depth .afterOperand behind terms' row' rest c) :
    ∃ c, ReadAs depth place (token :: after) terms row rest c := by
  cases ht : readTerm (token :: after) with
  | error fault =>
    rw [rowReading_of_readTerm_error depth place after hl hr hk ht] at h
    cases h
  | ok p =>
    obtain ⟨term, behind⟩ := p
    rw [rowReading_of_readTerm depth place after hl ht] at h
    obtain ⟨terms', hmap, rfl⟩ := Reading.eq_ok_of_after h
    obtain ⟨⟨row', rest'⟩, hrow, heq⟩ := Reading.eq_ok_of_map hmap
    cases heq
    obtain ⟨c, hc⟩ := ih (length_readTerm_lt ht) hrow
    obtain ⟨hwritten, htokens⟩ := tokens_of_readTerm ht
    have ho : depth + (Operand.term term hwritten).depth ≤ maxDepth := Nat.le_trans (Nat.le_add_right depth _) hc.depth
    rw [htokens]
    exact ⟨_, hc.cons ho⟩

/-- **What is read of a row is a chain.** By induction on the tokens: every operand leaves fewer of them. -/
theorem exists_chain_of_rowReading {depth : Nat} {place : Place} {tokens rest : List Token} {terms : List Term}
    {row : List (Connective × Formula Term)} (hd : depth ≤ maxDepth)
    (h : rowReading depth place tokens = ⟨terms, .ok (row, rest)⟩) :
    ∃ c, ReadAs depth place tokens terms row rest c := by
  match tokens with
  | [] =>
    rw [rowReading_nil] at h
    split at h
    · exact ⟨.nil, .of_finish hd h⟩
    · cases h
  | .rightParen :: after =>
    rw [rowReading_rightParen] at h
    split at h
    · cases h
    · exact ⟨.nil, .of_finish hd h⟩
  | .keyword c :: after =>
    rw [rowReading_keyword] at h
    cases place with
    | start => cases h
    | afterConnective c' => cases h
    | afterOperand =>
      obtain ⟨chain, hc⟩ := exists_chain_of_rowReading hd h
      exact ⟨chain, hc.tokens, hc.terms, hc.row, hc.depth, fun h => by cases h⟩
  | .leftParen :: after =>
    rw [rowReading_leftParen] at h
    split at h
    · cases h
    · next hlt =>
      obtain ⟨⟨inner, inside⟩, terms₁, terms₂, hinner, hbehind, rfl⟩ := Reading.eq_ok_of_andThen h
      obtain ⟨_, hin⟩ := exists_chain_of_rowReading (by omega) hinner
      obtain ⟨first, more, rfl⟩ := hin.start rfl
      match inside, hbehind with
      | .rightParen :: outside, hbehind =>
        obtain ⟨⟨row', rest'⟩, hrow, heq⟩ := Reading.eq_ok_of_map hbehind
        cases heq
        have hafter : after = first.tokens ++ more.tokens ++ .rightParen :: outside := hin.tokens
        have hdepth : depth + (Operand.group first more).depth ≤ maxDepth := by
          have := hin.depth
          rw [Chain.depth] at this
          rw [Operand.depth]
          omega
        obtain ⟨chain, hout⟩ := exists_chain_of_rowReading hd hrow
        have hcons : ReadAs depth place ((Operand.group first more).tokens ++ outside) _ _ rest' _ := hout.cons hdepth
        refine ⟨.cons place.link? (.group first more) chain, ?_⟩
        rw [hafter, ← hin.terms, ← hin.row]
        simpa [Operand.tokens, Operand.terms, Operand.formula, Chain.row, Chain.terms] using hcons
  | .word _ :: after | .phrase _ :: after | .relation _ :: after =>
    exact ReadAs.exists_of_term (by simp) (by simp) (by simp) h fun hlt hrow => exists_chain_of_rowReading hd hrow
termination_by tokens.length
decreasing_by
  · simp
  · simp
  · simp only [hafter, List.length_append, List.length_cons]; omega
  all_goals exact hlt

/-- **What is read of a list of tokens is a query.** -/
theorem exists_query_of_readQuery {tokens : List Token} {terms : List Term} {result : Option (Formula Term)}
    (hne : tokens ≠ []) (h : readQuery tokens = ⟨terms, .ok result⟩) :
    ∃ q : Query, q.tokens = tokens ∧ q.depth ≤ maxDepth ∧ result = some q.formula := by
  rw [readQuery_of_ne_nil hne] at h
  obtain ⟨⟨row, rest⟩, terms₁, terms₂, hrow, hend, -⟩ := Reading.eq_ok_of_andThen h
  cases rest with
  | cons token rest => cases hend
  | nil =>
    cases hend
    obtain ⟨_, hc⟩ := exists_chain_of_rowReading (Nat.zero_le _) hrow
    obtain ⟨first, more, rfl⟩ := hc.start rfl
    refine ⟨⟨first, more⟩, ?_, ?_, ?_⟩
    · simpa [Query.tokens, Chain.tokens, Place.link?] using hc.tokens.symm
    · simpa [Query.depth, Chain.depth] using hc.depth
    · rw [← hc.row]
      rfl

end TelemetrySearch
