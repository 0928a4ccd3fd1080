import TelemetrySearch.Formula
import TelemetrySearch.Query.Fault
import TelemetrySearch.Query.Term

/-!
# From tokens to a formula of terms

    query   := operand (connective? operand)*
    operand := "(" query ")" | word relation value | word | phrase
    value   := literal | "(" literal ("OR" literal)* ")"
    literal := word | phrase

Operands side by side are joined by `AND`, and `AND` binds tighter than `OR`. Groups nest at most `maxDepth` deep.

`readQuery` goes through the tokens from left to right. Its result is a `Reading`: the terms it has met, in the order
of the query, and then the formula or the first fault. A term before the fault has been read even if no formula comes
out, so a caller can report what is wrong with the term first.
-/

namespace TelemetrySearch

/-- The terms met so far, and then a result or the fault that ended the reading. -/
structure Reading (α : Type) where
  terms : List Term
  result : Except Fault α

namespace Reading

variable {α β : Type}

/-- A reading that has met no term. -/
def done (a : α) : Reading α := ⟨[], .ok a⟩

/-- A reading that ends at once. -/
def fail (fault : Fault) : Reading α := ⟨[], .error fault⟩

/-- Meets a term before it goes on. -/
def meet (term : Term) (next : Reading α) : Reading α := ⟨term :: next.terms, next.result⟩

/-- The reading with its result changed. -/
def map (f : α → β) (reading : Reading α) : Reading β := ⟨reading.terms, reading.result.map f⟩

/-- Goes on with the result. -/
def andThen (first : Reading α) (next : α → Reading β) : Reading β :=
  match first.result with
  | .ok a =>
    match next a with
    | ⟨terms, result⟩ => ⟨first.terms ++ terms, result⟩
  | .error fault => ⟨first.terms, .error fault⟩

end Reading

/-! ## One term -/

/-- The literal that a token is. -/
def Token.literal? : Token → Option Literal
  | .word text => some (.word text)
  | .phrase text => some (.phrase text)
  | _ => none

/-- Reads the literals of a value list up to its `)`. -/
def readListItems (key : String) : List Token → Except Fault (List Literal × List Token)
  | [] => .error (.badListItem key)
  | token :: rest =>
    match token.literal?, rest with
    | none, _ => .error (.badListItem key)
    | some l, .rightParen :: after => .ok ([l], after)
    | some l, .keyword .or :: after => (readListItems key after).map fun (ls, rest) => (l :: ls, rest)
    | some _, _ => .error (.badListSeparator key)

/-- Reads a value list behind its `(`. -/
def readList (key : String) : List Token → Except Fault (List Literal × List Token)
  | .rightParen :: _ => .error (.emptyList key)
  | tokens => readListItems key tokens

/-- Reads the value that stands behind `key` and a relation. -/
def readValue (key : String) : List Token → Except Fault (Value × List Token)
  | .word text :: rest => .ok (.single (.word text), rest)
  | .phrase text :: rest => .ok (.single (.phrase text), rest)
  | .leftParen :: rest => (readList key rest).map fun (ls, rest) => (.list ls, rest)
  | _ => .error (.noValue key)

/-- Reads the term at the head of the tokens. -/
def readTerm : List Token → Except Fault (Term × List Token)
  | .word key :: .relation r :: rest => (readValue key rest).map fun (v, rest) => (.keyed key r v, rest)
  | .phrase _ :: .relation r :: _ => .error (.quotedKey r)
  | .word text :: rest => .ok (.body (.word text), rest)
  | .phrase text :: rest => .ok (.body (.phrase text), rest)
  | .relation r :: _ => .error (.noKey r)
  | _ => .error .noTerm

theorem length_readListItems_lt {key : String} {tokens rest : List Token} {ls : List Literal}
    (h : readListItems key tokens = .ok (ls, rest)) : rest.length < tokens.length := by
  fun_induction readListItems key tokens generalizing ls rest with
  | case1 => simp at h
  | case2 => simp at h
  | case3 =>
    simp only [Except.ok.injEq, Prod.mk.injEq] at h
    simp only [List.length_cons, ← h.2]
    omega
  | case4 token l after heq ih =>
    cases hr : readListItems key after with
    | error => simp [hr, Except.map] at h
    | ok p =>
      simp only [hr, Except.map, Except.ok.injEq, Prod.mk.injEq] at h
      have := ih hr
      simp only [List.length_cons, ← h.2]
      omega
  | case5 => simp at h

theorem length_readValue_lt {key : String} {tokens rest : List Token} {v : Value}
    (h : readValue key tokens = .ok (v, rest)) : rest.length < tokens.length := by
  unfold readValue at h
  split at h
  · simp at h; simp [h.2]
  · simp at h; simp [h.2]
  · next after =>
    cases hl : readList key after with
    | error => simp [hl, Except.map] at h
    | ok p =>
      simp only [hl, Except.map, Except.ok.injEq, Prod.mk.injEq] at h
      unfold readList at hl
      split at hl
      · simp at hl
      · have := length_readListItems_lt hl
        simp only [List.length_cons, ← h.2]
        omega
  · simp at h

theorem length_readTerm_lt {tokens rest : List Token} {t : Term} (h : readTerm tokens = .ok (t, rest)) :
    rest.length < tokens.length := by
  unfold readTerm at h
  split at h
  · next key _ after =>
    cases hv : readValue key after with
    | error => simp [hv, Except.map] at h
    | ok p =>
      simp only [hv, Except.map, Except.ok.injEq, Prod.mk.injEq] at h
      have := length_readValue_lt hv
      simp only [List.length_cons, ← h.2]
      omega
  · simp at h
  · simp at h; simp [h.2]
  · simp at h; simp [h.2]
  · simp at h
  · simp at h

/-! ## Rows of operands -/

/-- Where a row of operands stands. -/
inductive Place where
  | start
  | afterOperand
  | afterConnective (connective : Connective)
  deriving DecidableEq, Repr

namespace Place

/-- The connective before an operand that is read here. -/
def link : Place → Connective
  | start | afterOperand => .and
  | afterConnective c => c

/-- The fault of a row that ends here. -/
def endFault? : Place → Option Fault
  | start => some .emptyGroup
  | afterOperand => none
  | afterConnective c => some (.noRightOperand c)

/-- The fault of a connective that stands here. -/
def connectiveFault? (c : Connective) : Place → Option Fault
  | start => some (.noLeftOperand c)
  | afterOperand => none
  | afterConnective previous => some (.doubledConnective c previous)

end Place

/-- A row of operands, each with the connective before it, and the tokens behind the row. -/
abbrev Row (tokens : List Token) : Type :=
  List (Connective × Formula Term) × { rest : List Token // rest.length ≤ tokens.length }

/-- The row that ends in front of the tokens. -/
def Row.finish (place : Place) (tokens : List Token) : Reading (Row tokens) :=
  match place.endFault? with
  | some fault => .fail fault
  | none => .done ([], ⟨tokens, Nat.le_refl _⟩)

set_option linter.unusedVariables false in
/-- Reads a row of operands up to the end of the tokens or, inside `depth` groups, to the `)` of the innermost. -/
def readRow (depth : Nat) (place : Place) (tokens : List Token) : Reading (Row tokens) :=
  match tokens with
  | [] => if depth = 0 then Row.finish place [] else .fail .unmatchedLeft
  | .rightParen :: rest => if depth = 0 then .fail .unmatchedRight else Row.finish place (.rightParen :: rest)
  | .keyword c :: rest =>
    match place.connectiveFault? c with
    | some fault => .fail fault
    | none =>
      (readRow depth (.afterConnective c) rest).map fun (row, ⟨after, h⟩) =>
        (row, ⟨after, by simp only [List.length_cons]; omega⟩)
  | .leftParen :: rest =>
    if maxDepth ≤ depth then
      .fail .tooDeep
    else
      (readRow (depth + 1) .start rest).andThen fun (inner, inside) =>
        match inside with
        | ⟨.rightParen :: outside, h⟩ =>
          (readRow depth .afterOperand outside).map fun (row, ⟨after, h'⟩) =>
            ((place.link, .ofOperands inner) :: row,
              ⟨after, by simp only [List.length_cons] at h ⊢; omega⟩)
        | _ => .fail .unmatchedLeft
  | token :: rest =>
    match ht : readTerm (token :: rest) with
    | .error fault => .fail fault
    | .ok (term, behind) =>
      .meet term <| (readRow depth .afterOperand behind).map fun (row, ⟨after, h⟩) =>
        ((place.link, .leaf term) :: row, ⟨after, by have := length_readTerm_lt ht; omega⟩)
termination_by tokens.length
decreasing_by
  · simp
  · simp
  · simp only [List.length_cons] at h ⊢; omega
  · exact length_readTerm_lt ht

/-- Reads a whole query; no tokens are a query without a formula. -/
def readQuery (tokens : List Token) : Reading (Option (Formula Term)) :=
  match tokens with
  | [] => .done none
  | tokens =>
    (readRow 0 .start tokens).andThen fun (row, ⟨rest, _⟩) =>
      if rest.isEmpty then .done (some (.ofOperands row)) else .fail .unmatchedRight

end TelemetrySearch
