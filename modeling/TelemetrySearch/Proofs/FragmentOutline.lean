import TelemetrySearch.Proofs.Lexing
import TelemetrySearch.Proofs.QueryMeaning
import TelemetrySearch.Proofs.TermCondition

/-!
# What the user types does not reach the text of a condition

`Table.outline` keeps of a list of tokens what the text of its condition may depend on: the relations, the parentheses
and the keywords, of a key the kind and the column of its field, and of any other word or phrase whether it has a
wildcard.

* Two queries with one outline have trees of one shape, with terms of one outline in the same places
  (`Query.map_termOutline_formula`): an outline tells a key from other words, so that no look ahead is needed to find
  the end of an operand in it.
* Two terms of one outline that compile become conditions with one text and as many arguments (`Search.outline_term`).
* `Search.condition?_outline`: so do two queries.
-/

namespace TelemetrySearch

/-! ## Outlines -/

/-- What the text of a condition may tell of a literal. -/
structure LiteralOutline where
  quoted : Bool
  wildcard : Bool
  deriving DecidableEq, Repr

/-- What the text of a condition may tell of a value. -/
inductive ValueOutline where
  | single (literal : LiteralOutline)
  | list (literals : List LiteralOutline)
  deriving DecidableEq, Repr

/-- What the text of a condition may tell of its term; there is no field for a key that the table does not have. -/
inductive TermOutline where
  | body (literal : LiteralOutline)
  | keyed (field : Option Field) (relation : Relation) (value : ValueOutline)
  deriving DecidableEq, Repr

/-- What the text of a condition may tell of a token. -/
inductive TokenOutline where
  /-- A word or a phrase without a relation behind it. -/
  | literal (literal : LiteralOutline)
  /-- A word with a relation behind it. -/
  | key (field : Option Field)
  /-- A phrase with a relation behind it; no query has one. -/
  | quotedKey
  /-- A relation, a parenthesis or a keyword. -/
  | mark (token : Token)
  deriving DecidableEq, Repr

/-- The outline of a literal. -/
def Literal.outline (l : Literal) : LiteralOutline := ⟨l.quoted, l.hasWildcard⟩

/-- The outline of a value. -/
def Value.outline : Value → ValueOutline
  | single l => .single l.outline
  | list ls => .list (ls.map Literal.outline)

/-- The field without the key of its cell, and without the unit of its values. -/
def Field.outline : Field → Field
  | column name _ => .column name false
  | cell map _ => .cell map ""
  | body name => .body name

/-- The text of a condition and the number of its arguments. -/
def Condition.outline (c : Condition) : String × Nat := (c.fragment, c.args.length)

theorem startsWithRelation_eq_false {tokens : List Token} (h : NoRelationAhead tokens) :
    startsWithRelation tokens = false := by
  cases tokens with
  | nil => rfl
  | cons token rest =>
    cases token with
    | relation r => exact absurd rfl (h r rest)
    | _ => rfl

theorem Chain.noRelationAhead_tokens (c : Chain) : NoRelationAhead c.tokens := by
  have hend : AtEnd [] := .inl rfl
  simpa using c.noRelationAhead hend.noRelationAhead

namespace Table

variable (t : Table)

/-- The kind and the column of the field of a key. -/
def keyOutline (key : String) : Option Field := (t.resolve key).map Field.outline

/-- The outline of a term. -/
def termOutline : Term → TermOutline
  | .body l => .body l.outline
  | .keyed key r value => .keyed (t.keyOutline key) r value.outline

/-- The outline of a token; `beforeRelation` tells whether a relation stands right behind it. -/
def tokenOutline (beforeRelation : Bool) : Token → TokenOutline
  | .word text => if beforeRelation then .key (t.keyOutline text) else .literal (Literal.word text).outline
  | .phrase text => if beforeRelation then .quotedKey else .literal (Literal.phrase text).outline
  | token => .mark token

/-- The outline of a list of tokens. -/
def outline : List Token → List TokenOutline
  | [] => []
  | token :: rest => t.tokenOutline (startsWithRelation rest) token :: outline rest

/-! ### Outlines of tokens side by side -/

/-- Tokens that do not begin with a relation have an outline of their own behind others. -/
theorem outline_append {rest : List Token} (h : NoRelationAhead rest) : ∀ tokens : List Token,
    t.outline (tokens ++ rest) = t.outline tokens ++ t.outline rest
  | [] => rfl
  | [token] => by
    -- only the last token gets a new neighbour
    show t.tokenOutline (startsWithRelation rest) token :: t.outline rest = _
    rw [startsWithRelation_eq_false h]
    rfl
  | token :: next :: tokens => by
    have ih := outline_append h (next :: tokens)
    have hahead : startsWithRelation (next :: tokens ++ rest) = startsWithRelation (next :: tokens) := by
      cases next <;> rfl
    rw [List.cons_append, outline, ih, hahead]
    rfl

theorem outline_token (l : Literal) : t.outline [l.token] = [.literal l.outline] := by
  obtain ⟨text, quoted⟩ := l
  cases quoted <;> rfl

theorem outline_rowTokens (l : Literal) : ∀ ls : List Literal,
    t.outline (Literal.rowTokens (l :: ls)) =
      .literal l.outline :: ls.flatMap fun m => [.mark (.keyword .or), .literal m.outline]
  | [] => t.outline_token l
  | m :: ls => by
    have hsplit : Literal.rowTokens (l :: m :: ls) = [l.token] ++ .keyword .or :: Literal.rowTokens (m :: ls) := rfl
    rw [hsplit, t.outline_append (noRelationAhead_keyword .or _), outline_token]
    show [TokenOutline.literal l.outline] ++ .mark (.keyword .or) :: t.outline (Literal.rowTokens (m :: ls)) = _
    rw [outline_rowTokens m ls]
    rfl

theorem outline_enclosed (tokens : List Token) :
    t.outline (.leftParen :: (tokens ++ [.rightParen])) =
      .mark .leftParen :: (t.outline tokens ++ [.mark .rightParen]) := by
  show TokenOutline.mark .leftParen :: t.outline (tokens ++ [.rightParen]) = _
  rw [t.outline_append (atEnd_rightParen []).noRelationAhead]
  rfl

theorem outline_list (ls : List Literal) :
    t.outline (Value.list ls).tokens =
      .mark .leftParen :: (t.outline (Literal.rowTokens ls) ++ [.mark .rightParen]) :=
  t.outline_enclosed (Literal.rowTokens ls)

theorem outline_row (first : Operand) (more : Chain) :
    t.outline (first.tokens ++ more.tokens) = t.outline first.tokens ++ t.outline more.tokens :=
  t.outline_append more.noRelationAhead_tokens first.tokens

theorem outline_group (first : Operand) (more : Chain) :
    t.outline (Operand.group first more).tokens =
      .mark .leftParen :: (t.outline first.tokens ++ (t.outline more.tokens ++ [.mark .rightParen])) := by
  rw [← List.append_assoc, ← t.outline_row]
  exact t.outline_enclosed (first.tokens ++ more.tokens)

theorem outline_chain (link : Option Connective) (o : Operand) (more : Chain) :
    t.outline (Chain.cons link o more).tokens =
      (link.map fun c => TokenOutline.mark (.keyword c)).toList ++ (t.outline o.tokens ++ t.outline more.tokens) := by
  have hlink : t.outline (link.map Token.keyword).toList =
      (link.map fun c => TokenOutline.mark (.keyword c)).toList := by cases link <;> rfl
  rw [Chain.tokens, List.append_assoc, t.outline_append (o.noRelationAhead more.tokens), t.outline_row, hlink]

end Table

/-! ## Queries with one outline -/

section Lockstep

variable {t : Table}

theorem map_outline_of_items : ∀ {ls ls' : List Literal} {xs ys : List TokenOutline},
    (ls.flatMap fun m => [.mark (.keyword .or), .literal m.outline]) ++ .mark .rightParen :: xs =
      (ls'.flatMap fun m => [.mark (.keyword .or), .literal m.outline]) ++ .mark .rightParen :: ys →
    ls.map Literal.outline = ls'.map Literal.outline ∧ xs = ys
  | [], [], xs, ys, h => ⟨rfl, (List.cons.inj h).2⟩
  | [], l' :: ls', xs, ys, h => by simp at h
  | l :: ls, [], xs, ys, h => by simp at h
  | l :: ls, l' :: ls', xs, ys, h => by
    simp only [List.flatMap_cons, List.cons_append, List.nil_append, List.cons.injEq, TokenOutline.literal.injEq,
      true_and] at h
    obtain ⟨hmap, hrest⟩ := map_outline_of_items h.2
    exact ⟨by rw [List.map_cons, List.map_cons, h.1, hmap], hrest⟩

theorem map_outline_of_rowTokens {ls ls' : List Literal} {xs ys : List TokenOutline}
    (h : t.outline (Literal.rowTokens ls) ++ .mark .rightParen :: xs =
      t.outline (Literal.rowTokens ls') ++ .mark .rightParen :: ys) :
    ls.map Literal.outline = ls'.map Literal.outline ∧ xs = ys := by
  cases ls with
  | nil =>
    cases ls' with
    | nil => exact ⟨rfl, (List.cons.inj h).2⟩
    | cons l' ls' => rw [t.outline_rowTokens] at h; cases h
  | cons l ls =>
    cases ls' with
    | nil => rw [t.outline_rowTokens] at h; cases h
    | cons l' ls' =>
      rw [t.outline_rowTokens, t.outline_rowTokens] at h
      obtain ⟨hl, hitems⟩ := List.cons.inj h
      obtain ⟨hmap, hrest⟩ := map_outline_of_items hitems
      exact ⟨by rw [List.map_cons, List.map_cons, TokenOutline.literal.inj hl, hmap], hrest⟩

theorem Value.outline_of_tokens {v v' : Value} {xs ys : List TokenOutline}
    (h : t.outline v.tokens ++ xs = t.outline v'.tokens ++ ys) : v.outline = v'.outline ∧ xs = ys := by
  cases v with
  | single l =>
    cases v' with
    | single l' =>
      rw [Value.tokens, Value.tokens, t.outline_token, t.outline_token] at h
      obtain ⟨hl, hrest⟩ := List.cons.inj h
      exact ⟨congrArg ValueOutline.single (TokenOutline.literal.inj hl), hrest⟩
    | list ls' =>
      rw [Value.tokens, t.outline_token, t.outline_list] at h
      cases h
  | list ls =>
    cases v' with
    | single l' =>
      rw [t.outline_list, Value.tokens, t.outline_token] at h
      cases h
    | list ls' =>
      rw [t.outline_list, t.outline_list] at h
      simp only [List.cons_append, List.append_assoc, List.nil_append, List.cons.injEq, true_and] at h
      obtain ⟨hmap, hrest⟩ := map_outline_of_rowTokens h
      exact ⟨congrArg ValueOutline.list hmap, hrest⟩

/-- The outline of a term can be told from what stands behind it. -/
theorem Term.outline_of_tokens {u u' : Term} {xs ys : List TokenOutline}
    (h : t.outline u.tokens ++ xs = t.outline u'.tokens ++ ys) : t.termOutline u = t.termOutline u' ∧ xs = ys := by
  cases u with
  | body l =>
    cases u' with
    | body l' =>
      rw [Term.tokens, Term.tokens, t.outline_token, t.outline_token] at h
      obtain ⟨hl, hrest⟩ := List.cons.inj h
      exact ⟨congrArg TermOutline.body (TokenOutline.literal.inj hl), hrest⟩
    | keyed key' r' v' =>
      rw [Term.tokens, t.outline_token] at h
      cases h
  | keyed key r v =>
    cases u' with
    | body l' =>
      rw [Term.tokens, Term.tokens, t.outline_token] at h
      cases h
    | keyed key' r' v' =>
      obtain ⟨hkey, hmore⟩ := List.cons.inj h
      obtain ⟨hr, hvalue⟩ := List.cons.inj hmore
      obtain ⟨hv, hrest⟩ := Value.outline_of_tokens hvalue
      cases hr
      refine ⟨?_, hrest⟩
      rw [Table.termOutline, Table.termOutline, TokenOutline.key.inj hkey, hv]

/-- The outlines that an operand can begin with. -/
def TokenOutline.opensOperand : TokenOutline → Bool
  | .literal _ | .key _ | .quotedKey => true
  | .mark token => token.opensOperand

theorem Operand.outline_eq_cons (t : Table) (o : Operand) :
    ∃ x xs, t.outline o.tokens = x :: xs ∧ x.opensOperand = true := by
  obtain ⟨token, rest, ho, hopens⟩ := o.tokens_eq_cons
  refine ⟨t.tokenOutline (startsWithRelation rest) token, t.outline rest, by rw [ho]; rfl, ?_⟩
  cases token with
  | word text => cases startsWithRelation rest <;> rfl
  | phrase text => cases startsWithRelation rest <;> rfl
  | leftParen => rfl
  | relation r => cases hopens
  | rightParen => cases hopens
  | keyword c => cases hopens

theorem Operand.outline_append_ne (o : Operand) {token : Token} (h : token.opensOperand = false)
    (xs ys : List TokenOutline) : t.outline o.tokens ++ xs ≠ .mark token :: ys := by
  obtain ⟨x, more, ho, hx⟩ := o.outline_eq_cons t
  rw [ho]
  rintro ⟨⟩
  rw [TokenOutline.opensOperand, h] at hx
  cases hx

theorem Term.outline_append_ne_leftParen (u : Term) (xs ys : List TokenOutline) :
    t.outline u.tokens ++ xs ≠ .mark .leftParen :: ys := by
  intro h
  cases u with
  | body l =>
    rw [Term.tokens, t.outline_token] at h
    cases h
  | keyed key r v => cases h

/-- The outline of the end of a group, or of no tokens. -/
def EndOutline (xs : List TokenOutline) : Prop := xs = [] ∨ ∃ ys, xs = .mark .rightParen :: ys

theorem endOutline_rightParen (xs : List TokenOutline) : EndOutline (.mark .rightParen :: xs) := .inr ⟨xs, rfl⟩

/-- At the end of a query no chain goes on. -/
theorem Chain.not_endOutline_cons (link : Option Connective) (o : Operand) (more : Chain) (xs : List TokenOutline) :
    ¬EndOutline (t.outline (Chain.cons link o more).tokens ++ xs) := by
  rw [t.outline_chain, List.append_assoc, List.append_assoc]
  cases link with
  | none =>
    rintro (h | ⟨ys, h⟩)
    · obtain ⟨x, more, ho, -⟩ := o.outline_eq_cons t
      rw [ho] at h
      cases h
    · exact o.outline_append_ne rfl _ ys h
  | some c => rintro (h | ⟨ys, h⟩) <;> cases h

mutual

theorem Operand.map_formula_of_outline : ∀ {o o' : Operand} {xs ys : List TokenOutline},
    t.outline o.tokens ++ xs = t.outline o'.tokens ++ ys →
      o.formula.map t.termOutline = o'.formula.map t.termOutline ∧ xs = ys
  | .term u _, .term u' _, xs, ys, h => by
    obtain ⟨hu, hrest⟩ := Term.outline_of_tokens h
    exact ⟨congrArg Formula.leaf hu, hrest⟩
  | .term u _, .group first' more', xs, ys, h => by
    rw [t.outline_group] at h
    exact absurd h (u.outline_append_ne_leftParen xs _)
  | .group first more, .term u' _, xs, ys, h => by
    rw [t.outline_group] at h
    exact absurd h.symm (u'.outline_append_ne_leftParen ys _)
  | .group first more, .group first' more', xs, ys, h => by
    rw [t.outline_group, t.outline_group] at h
    simp only [List.cons_append, List.append_assoc, List.nil_append, List.cons.injEq, true_and] at h
    obtain ⟨hfirst, hmore⟩ := Operand.map_formula_of_outline h
    obtain ⟨hrow, hrest⟩ :=
      Chain.map_row_of_outline (endOutline_rightParen xs) (endOutline_rightParen ys) hmore
    refine ⟨?_, (List.cons.inj hrest).2⟩
    rw [Operand.formula, Operand.formula, Formula.map_ofOperands, Formula.map_ofOperands, List.map_cons, List.map_cons,
      Prod.map_apply, Prod.map_apply, hfirst, hrow]

theorem Chain.map_row_of_outline : ∀ {c c' : Chain} {xs ys : List TokenOutline}, EndOutline xs → EndOutline ys →
    t.outline c.tokens ++ xs = t.outline c'.tokens ++ ys →
      c.row.map (Prod.map id (Formula.map t.termOutline)) = c'.row.map (Prod.map id (Formula.map t.termOutline)) ∧
        xs = ys
  | .nil, .nil, _, _, _, _, h => ⟨rfl, h⟩
  | .nil, .cons link o more, xs, ys, hx, _, h => by
    rw [show xs = _ from h] at hx
    exact absurd hx (Chain.not_endOutline_cons link o more ys)
  | .cons link o more, .nil, xs, ys, _, hy, h => by
    rw [show ys = _ from h.symm] at hy
    exact absurd hy (Chain.not_endOutline_cons link o more xs)
  | .cons link o more, .cons link' o' more', xs, ys, hx, hy, h => by
    rw [t.outline_chain, t.outline_chain] at h
    simp only [List.append_assoc] at h
    -- a written connective is no beginning of an operand, so both chains have it or neither
    have hlink : link = link' ∧ t.outline o.tokens ++ (t.outline more.tokens ++ xs) =
        t.outline o'.tokens ++ (t.outline more'.tokens ++ ys) := by
      cases link with
      | none =>
        cases link' with
        | none => exact ⟨rfl, h⟩
        | some k' => exact absurd h (o.outline_append_ne rfl _ _)
      | some k =>
        cases link' with
        | none => exact absurd h.symm (o'.outline_append_ne rfl _ _)
        | some k' =>
          obtain ⟨hk, hrest⟩ := List.cons.inj h
          cases hk
          exact ⟨rfl, hrest⟩
    obtain ⟨rfl, ho⟩ := hlink
    obtain ⟨hformula, hmore⟩ := Operand.map_formula_of_outline ho
    obtain ⟨hrow, hrest⟩ := Chain.map_row_of_outline hx hy hmore
    refine ⟨?_, hrest⟩
    rw [Chain.row, Chain.row, List.map_cons, List.map_cons, Prod.map_apply, Prod.map_apply, hformula, hrow]

end

/-- **Queries with one outline have one shape, and terms of one outline in the same places.** -/
theorem Query.map_termOutline_formula {q q' : Query} (h : t.outline q.tokens = t.outline q'.tokens) :
    q.formula.map t.termOutline = q'.formula.map t.termOutline := by
  have hgroup : ∀ q : Query, t.outline (Operand.group q.first q.more).tokens =
      .mark .leftParen :: (t.outline q.tokens ++ [.mark .rightParen]) := fun q => t.outline_enclosed q.tokens
  have hq : t.outline (Operand.group q.first q.more).tokens ++ [] =
      t.outline (Operand.group q'.first q'.more).tokens ++ [] := by
    rw [hgroup, hgroup, h]
  exact (Operand.map_formula_of_outline hq).1

end Lockstep

/-! ## Terms with one outline -/

namespace Condition

variable {c c' : Condition}

theorem outline_eq_iff : c.outline = c'.outline ↔ c.fragment = c'.fragment ∧ c.args.length = c'.args.length :=
  Prod.ext_iff

theorem outline_negate (h : c.outline = c'.outline) : c.negate.outline = c'.negate.outline := by
  obtain ⟨hfragment, hargs⟩ := outline_eq_iff.1 h
  refine outline_eq_iff.2 ⟨?_, hargs⟩
  rw [negate, negate, hfragment]

theorem outline_anyOf {cs cs' : List Condition} (h : cs.map outline = cs'.map outline) :
    (anyOf cs).outline = (anyOf cs').outline := by
  have hfragments : cs.map fragment = cs'.map fragment := by
    simpa [outline, Function.comp_def] using congrArg (List.map Prod.fst) h
  have hlengths : cs.map (fun c => c.args.length) = cs'.map (fun c => c.args.length) := by
    simpa [outline, Function.comp_def] using congrArg (List.map Prod.snd) h
  refine outline_eq_iff.2 ⟨?_, ?_⟩
  · rw [anyOf, anyOf, hfragments]
  · rw [anyOf, anyOf, List.length_flatMap, List.length_flatMap, hlengths]

end Condition

theorem Relation.outline_finish (r : Relation) {c c' : Condition} (h : c.outline = c'.outline) :
    (r.finish c).outline = (r.finish c').outline := by
  rw [finish, finish]
  split
  · exact Condition.outline_negate h
  · exact h

namespace Field

/-- How a field is written, up to its key, is told by its outline. -/
theorem operand_outline (f : Field) (ordering wildcard : Bool) :
    f.outline.operand ordering wildcard = f.operand ordering wildcard ∧ f.outline.args.length = f.args.length := by
  cases f <;> exact ⟨rfl, rfl⟩

variable {f f' : Field}

theorem outline_search (f : Field) {l l' : Literal} (h : l.outline = l'.outline) :
    (f.search l).outline = (f.search l').outline := by
  obtain ⟨hquoted, hwildcard⟩ := LiteralOutline.mk.inj h
  obtain ⟨arg, hl⟩ := f.exists_search_eq l
  obtain ⟨arg', hl'⟩ := f.exists_search_eq l'
  rw [hl, hl', hquoted, hwildcard]
  rfl

theorem outline_compare (hf : f.outline = f'.outline) {r : Relation} {l l' : Literal} (h : l.outline = l'.outline)
    {c c' : Condition} (hc : f.compare r l = .ok c) (hc' : f'.compare r l' = .ok c') : c.outline = c'.outline := by
  obtain ⟨-, hwildcard⟩ := LiteralOutline.mk.inj h
  obtain ⟨arg, rfl⟩ := exists_of_compare hc
  obtain ⟨arg', rfl⟩ := exists_of_compare hc'
  obtain ⟨hoperand, hargs⟩ := f.operand_outline r.isOrdering l'.hasWildcard
  obtain ⟨hoperand', hargs'⟩ := f'.operand_outline r.isOrdering l'.hasWildcard
  refine Condition.outline_eq_iff.2 ⟨?_, ?_⟩
  · rw [hwildcard, ← hoperand, ← hoperand', hf]
  · rw [List.length_append, List.length_append, ← hargs, ← hargs', hf]
    rfl

theorem outline_compareValue (hf : f.outline = f'.outline) {r : Relation} {v v' : Value} (h : v.outline = v'.outline)
    {c c' : Condition} (hc : f.compareValue r v = .ok c) (hc' : f'.compareValue r v' = .ok c') :
    c.outline = c'.outline := by
  cases v with
  | single l =>
    cases v' with
    | single l' => exact outline_compare hf (ValueOutline.single.inj h) hc hc'
    | list ls' => cases h
  | list ls =>
    cases v' with
    | single l' => cases h
    | list ls' =>
      obtain ⟨cs, hcs, rfl⟩ := exists_of_compareValue_list hc
      obtain ⟨cs', hcs', rfl⟩ := exists_of_compareValue_list hc'
      refine Condition.outline_anyOf (Formula.map_eq_map_of_step hcs hcs' (ValueOutline.list.inj h) ?_)
      intro l _ l' d d' hd hd' hl
      exact outline_compare hf hl hd hd'

end Field

namespace Search

variable {s : Search}

/-- **Terms with one outline become conditions with one text and as many arguments.** -/
theorem outline_term {u u' : Term} (h : s.table.termOutline u = s.table.termOutline u') {c c' : Condition}
    (hc : s.term u = .ok c) (hc' : s.term u' = .ok c') : c.outline = c'.outline := by
  cases u with
  | body l =>
    cases u' with
    | body l' =>
      cases hc
      cases hc'
      exact s.table.bodyField.outline_search (TermOutline.body.inj h)
    | keyed key' r' v' => cases h
  | keyed key r v =>
    cases u' with
    | body l' => cases h
    | keyed key' r' v' =>
      obtain ⟨hkey, rfl, hv⟩ := TermOutline.keyed.inj h
      rw [Table.keyOutline, Table.keyOutline] at hkey
      -- the outlines of the keys agree on whether there is a field
      rcases cases_of_term_keyed hc with ⟨f, d, hf, hd, rfl⟩ | ⟨hnone, rfl⟩
      · rcases cases_of_term_keyed hc' with ⟨f', d', hf', hd', rfl⟩ | ⟨hnone', rfl⟩
        · rw [hf, hf'] at hkey
          exact r.outline_finish (Field.outline_compareValue (Option.some.inj hkey) hv hd hd')
        · rw [hf, hnone'] at hkey
          cases hkey
      · rcases cases_of_term_keyed hc' with ⟨f', d', hf', hd', rfl⟩ | ⟨hnone', rfl⟩
        · rw [hnone, hf'] at hkey
          cases hkey
        · rfl

end Search

/-! ## Conditions with one outline -/

theorem Formula.outline_condition {e e' : Formula Condition}
    (h : e.map Condition.outline = e'.map Condition.outline) : e.condition.outline = e'.condition.outline := by
  have hfragment : ∀ e : Formula Condition,
      e.condition.fragment = (e.map Condition.outline).text Prod.fst false := fun e => by
    rw [text_map]
    rfl
  have hlength : ∀ e : Formula Condition,
      e.condition.args.length = ((e.map Condition.outline).leaves.map Prod.snd).sum := fun e => by
    rw [leaves_map, List.map_map]
    exact List.length_flatMap
  exact Condition.outline_eq_iff.2 ⟨by rw [hfragment, hfragment, h], by rw [hlength, hlength, h]⟩

/-- **What the user types does not reach the text of a condition.** Two queries whose tokens have the same relations,
parentheses and keywords in the same places, whose keys have fields of the same kind in the same column, and whose
other words and phrases agree on having a wildcard, become conditions with the same text and equally many arguments. -/
theorem Search.condition?_outline (s : Search) {query query' : String} {tokens tokens' : List Token}
    (ht : tokenize query = .ok tokens) (ht' : tokenize query' = .ok tokens')
    (ho : s.table.outline tokens = s.table.outline tokens') {c c' : Condition}
    (hc : s.condition? query = .ok (some c)) (hc' : s.condition? query' = .ok (some c')) :
    c.fragment = c'.fragment ∧ c.args.length = c'.args.length := by
  obtain ⟨e, he, rfl⟩ := exists_formula_of_condition? hc
  obtain ⟨e', he', rfl⟩ := exists_formula_of_condition? hc'
  obtain ⟨q, hq, -, hbuilt⟩ := exists_query_of_formula? he
  obtain ⟨q', hq', -, hbuilt'⟩ := exists_query_of_formula? he'
  rw [ht] at hq
  rw [ht'] at hq'
  cases hq
  cases hq'
  have hterms := Query.map_termOutline_formula ho
  have hleaves : e.map Condition.outline = e'.map Condition.outline :=
    Formula.map_eq_map_of_traverse hbuilt hbuilt' hterms fun u u' d d' hd hd' hu => outline_term hu hd hd'
  exact Condition.outline_eq_iff.1 (Formula.outline_condition hleaves)

/-- Other units, other cells of one map and other words; the phrase of the second query looks like SQL. -/
theorem Search.condition?_outline_cells :
    ∃ c c' : Condition,
      (⟨.traces, .reject⟩ : Search).condition? "duration>5ms http.method!=(get OR \"x y\") foo*" = .ok (some c) ∧
      (⟨.traces, .reject⟩ : Search).condition? "duration>90 http.agent!=(b OR \"') OR 1=1 --\") *" = .ok (some c') ∧
      c.fragment = c'.fragment ∧ c.args.length = c'.args.length := by
  let q : Query :=
    ⟨.term (.keyed "duration" .gt (.single (.word "5ms"))) trivial,
      .cons none (.term (.keyed "http.method" .ne (.list [.word "get", .phrase "x y"])) (List.cons_ne_nil _ _))
        (.cons none (.term (.body (.word "foo*")) trivial) .nil)⟩
  let q' : Query :=
    ⟨.term (.keyed "duration" .gt (.single (.word "90"))) trivial,
      .cons none (.term (.keyed "http.agent" .ne (.list [.word "b", .phrase "') OR 1=1 --"])) (List.cons_ne_nil _ _))
        (.cons none (.term (.body (.word "*")) trivial) .nil)⟩
  have hq : tokenize "duration>5ms http.method!=(get OR \"x y\") foo*" = .ok q.tokens :=
    tokenize_eq_ok_iff.2 (.cons rfl rfl (.cons rfl rfl (.cons rfl rfl (.cons rfl rfl (.cons rfl rfl (.cons rfl rfl
      (.cons rfl rfl (.cons rfl rfl (.cons rfl rfl (.cons rfl rfl (.cons rfl rfl (.nil rfl))))))))))))
  have hq' : tokenize "duration>90 http.agent!=(b OR \"') OR 1=1 --\") *" = .ok q'.tokens :=
    tokenize_eq_ok_iff.2 (.cons rfl rfl (.cons rfl rfl (.cons rfl rfl (.cons rfl rfl (.cons rfl rfl (.cons rfl rfl
      (.cons rfl rfl (.cons rfl rfl (.cons rfl rfl (.cons rfl rfl (.cons rfl rfl (.nil rfl))))))))))))
  have ho : Table.traces.outline q.tokens = Table.traces.outline q'.tokens := by decide +kernel
  have hc := congrArg (Except.map (Option.map Formula.condition))
    (formula?_of_tokenize ⟨.traces, .reject⟩ hq (by decide))
  have hc' := congrArg (Except.map (Option.map Formula.condition))
    (formula?_of_tokenize ⟨.traces, .reject⟩ hq' (by decide))
  exact ⟨_, _, hc, hc', condition?_outline ⟨.traces, .reject⟩ hq hq' ho hc hc'⟩

end TelemetrySearch
