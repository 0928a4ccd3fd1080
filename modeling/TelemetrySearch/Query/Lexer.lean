import TelemetrySearch.Query.Fault
import TelemetrySearch.Text

/-!
# From text to tokens

`tokenize` cuts a query into tokens. Blanks only separate, parentheses stand alone and a phrase runs from one double
quote to the next. A word ends at a blank, a parenthesis, a quote or a relation; right after a relation a value is
taken literally and ends only at a blank, a parenthesis or a quote. The words `and` and `or`, in any case, are
keywords unless a relation follows, which makes them keys.

Every token leaves a shorter text (`length_lexeme_lt`), so the scan ends.
-/

namespace TelemetrySearch

/-- The relation that the text starts with, and what follows it. -/
def relation? : List Char → Option (Relation × List Char)
  | '>' :: '=' :: rest => some (.ge, rest)
  | '<' :: '=' :: rest => some (.le, rest)
  | '!' :: '=' :: rest => some (.ne, rest)
  | '=' :: rest => some (.eq, rest)
  | ':' :: rest => some (.eq, rest)
  | '>' :: rest => some (.gt, rest)
  | '<' :: rest => some (.lt, rest)
  | _ => none

/-- The characters that no word and no value contains, blanks apart. -/
def isBracket (c : Char) : Bool := c == '(' || c == ')' || c == '"'

/-- The characters of a value that stands right after a relation. -/
def isValueChar (c : Char) : Bool := !isBlank c && !isBracket c

/-- The bare word that the text starts with, and what follows it. -/
def spanWord : List Char → List Char × List Char
  | [] => ([], [])
  | c :: rest =>
    if isValueChar c && (relation? (c :: rest)).isNone then
      match spanWord rest with
      | (word, after) => (c :: word, after)
    else
      ([], c :: rest)

/-- The keyword that a word spells, in any case. -/
def keyword? (word : List Char) : Option Connective :=
  match word.map Char.toLower with
  | ['a', 'n', 'd'] => some .and
  | ['o', 'r'] => some .or
  | _ => none

/-- The token of a bare word before `rest`: a keyword stays a word where a relation makes it a key. -/
def wordToken (word rest : List Char) : Token :=
  match keyword? word with
  | some connective =>
    if (relation? (skipBlanks rest)).isNone then .keyword connective else .word (String.ofList word)
  | none => .word (String.ofList word)

/-- Reads a phrase behind its opening quote. -/
def phrase? (cs : List Char) : Option (Token × List Char) :=
  match cs.dropWhile (· != '"') with
  | [] => none
  | _ :: rest => some (.phrase (String.ofList (cs.takeWhile (· != '"'))), rest)

/-- A token and the text behind it, or a fault at the position of the token. -/
abbrev Lexeme : Type := Except (Nat → Fault) (Token × List Char)

/-- Reads the value behind the relation `r`. -/
def valueLexeme (r : Relation) : List Char → Lexeme
  | '(' :: rest => .ok (.leftParen, rest)
  | '"' :: rest =>
    match phrase? rest with
    | some lexeme => .ok lexeme
    | none => .error .openQuote
  | cs =>
    match cs.takeWhile isValueChar with
    | [] => .error (.noValueAt r)
    | word => .ok (.word (String.ofList word), cs.dropWhile isValueChar)

/-- Reads the token at the head of a text that does not follow a relation. -/
def plainLexeme : List Char → Lexeme
  | '(' :: rest => .ok (.leftParen, rest)
  | ')' :: rest => .ok (.rightParen, rest)
  | '"' :: rest =>
    match phrase? rest with
    | some lexeme => .ok lexeme
    | none => .error .openQuote
  | cs =>
    match relation? cs with
    | some (r, rest) => .ok (.relation r, rest)
    | none =>
      match spanWord cs with
      | ([], _) => .error .unexpectedCharacter
      | (word, rest) => .ok (wordToken word rest, rest)

/-- Reads the token at the head of the text; `pending` is the relation that stands right before it. -/
def lexeme (pending : Option Relation) (cs : List Char) : Lexeme :=
  match pending with
  | some r => valueLexeme r cs
  | none => plainLexeme cs

/-! ## Every token shortens the text -/

theorem length_relation?_lt {cs rest : List Char} {r : Relation} (h : relation? cs = some (r, rest)) :
    rest.length < cs.length := by
  unfold relation? at h
  split at h <;> simp at h <;> obtain ⟨-, rfl⟩ := h <;> simp only [List.length_cons] <;> omega

theorem spanWord_append (cs : List Char) : (spanWord cs).1 ++ (spanWord cs).2 = cs := by
  induction cs with
  | nil => rfl
  | cons c rest ih => unfold spanWord; split <;> simp [ih]

theorem length_phrase?_le {cs rest : List Char} {t : Token} (h : phrase? cs = some (t, rest)) :
    rest.length ≤ cs.length := by
  have hd := (List.dropWhile_sublist (· != '"') (l := cs)).length_le
  unfold phrase? at h
  split at h
  · simp at h
  · next heq =>
    simp only [Option.some.injEq, Prod.mk.injEq] at h
    rw [heq, h.2, List.length_cons] at hd
    omega

theorem length_valueLexeme_lt {r : Relation} {cs rest : List Char} {t : Token}
    (h : valueLexeme r cs = .ok (t, rest)) : rest.length < cs.length := by
  unfold valueLexeme at h
  split at h
  · simp at h; simp [h.2]
  · split at h
    · next hp => simp at h; subst h; have := length_phrase?_le hp; simp only [List.length_cons]; omega
    · simp at h
  · split at h
    · simp at h
    · next hw =>
      simp only [Except.ok.injEq, Prod.mk.injEq] at h
      have hl := congrArg List.length (List.takeWhile_append_dropWhile (p := isValueChar) (l := cs))
      have : (cs.takeWhile isValueChar).length ≠ 0 := by simpa [List.length_eq_zero_iff] using hw
      rw [List.length_append, h.2] at hl
      omega

theorem length_plainLexeme_lt {cs rest : List Char} {t : Token}
    (h : plainLexeme cs = .ok (t, rest)) : rest.length < cs.length := by
  unfold plainLexeme at h
  split at h
  · simp at h; simp [h.2]
  · simp at h; simp [h.2]
  · split at h
    · next hp => simp at h; subst h; have := length_phrase?_le hp; simp only [List.length_cons]; omega
    · simp at h
  · split at h
    · next hr => simp at h; obtain ⟨-, rfl⟩ := h; exact length_relation?_lt hr
    · split at h
      · simp at h
      · next hw hs =>
        simp only [Except.ok.injEq, Prod.mk.injEq] at h
        have hl := congrArg List.length (spanWord_append cs)
        rw [hs, List.length_append] at hl
        simp only [h.2] at hl
        have := List.length_pos_iff.2 hw
        omega

theorem length_lexeme_lt {pending : Option Relation} {cs rest : List Char} {t : Token}
    (h : lexeme pending cs = .ok (t, rest)) : rest.length < cs.length := by
  unfold lexeme at h
  split at h
  · exact length_valueLexeme_lt h
  · exact length_plainLexeme_lt h

/-! ## The scan -/

/-- The relation that asks for a value behind the token. -/
def Token.pending : Token → Option Relation
  | .relation r => some r
  | _ => none

/-- How many `(` are open behind the token, if `depth` were before it; none for a `)` too many. -/
def Token.depthAfter (depth : Nat) : Token → Option Nat
  | .leftParen => some (depth + 1)
  | .rightParen => if depth = 0 then none else some (depth - 1)
  | _ => some depth

/-- What the end of the text gives, with `depth` parentheses open and `pending` just read. -/
def endOfText (depth : Nat) : Option Relation → Except Fault (List Token)
  | some r => .error (.noValueAtEnd r)
  | none => if depth = 0 then .ok [] else .error (.openParens depth)

set_option linter.unusedVariables false in
/-- The tokens of the text; `locate` gives the position of a rest of it. -/
def scan (locate : List Char → Nat) (depth : Nat) (pending : Option Relation) (cs : List Char) :
    Except Fault (List Token) :=
  match hs : skipBlanks cs with
  | [] => endOfText depth pending
  | c :: after =>
    match hl : lexeme pending (c :: after) with
    | .error fault => .error (fault (locate (c :: after)))
    | .ok (token, rest) =>
      match token.depthAfter depth with
      | none => .error (.strayParen (locate (c :: after)))
      | some depth => (scan locate depth token.pending rest).map (token :: ·)
termination_by cs.length
decreasing_by
  have h₁ := length_lexeme_lt hl
  have h₂ := length_skipBlanks_le cs
  rw [hs] at h₂
  omega

/-- The tokens of a query. -/
def tokenize (query : String) : Except Fault (List Token) :=
  scan (positionOf query.toList) 0 none query.toList

end TelemetrySearch
