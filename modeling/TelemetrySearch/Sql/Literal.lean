/-!
# String literals and patterns

A string literal of SQL stands between single quotes. A backslash protects the quote and itself, and spells the
control characters that have a letter. `unescape` reads what `escape` writes (`unescape_escape`); a backslash in front
of any other character stands for that character, and a last one for itself.

In a pattern of `LIKE`, `%` stands for any text, `_` for any character, and a backslash protects the character behind
it.
-/

namespace TelemetrySearch.Sql

/-! ## String literals -/

/-- The character behind the backslash that spells `c`, for the characters that need one. -/
def escapeCode? (c : Char) : Option Char :=
  match c with
  | '\\' => some '\\'
  | '\'' => some '\''
  | '\x00' => some '0'
  | '\n' => some 'n'
  | '\r' => some 'r'
  | '\t' => some 't'
  | '\x08' => some 'b'
  | '\x0c' => some 'f'
  | _ => none

/-- A character as it stands in a string literal. -/
def escapeChar (c : Char) : List Char :=
  match escapeCode? c with
  | some code => ['\\', code]
  | none => [c]

/-- The character that a backslash and `code` spell. -/
def unescapeChar (code : Char) : Char :=
  match code with
  | '0' => '\x00'
  | 'n' => '\n'
  | 'r' => '\r'
  | 't' => '\t'
  | 'b' => '\x08'
  | 'f' => '\x0c'
  | other => other

/-- A text as it stands in a string literal, character by character. -/
def escapeChars (cs : List Char) : List Char := cs.flatMap escapeChar

/-- The text that the characters of a string literal spell. -/
def unescapeChars : List Char → List Char
  | [] => []
  | ['\\'] => ['\\']
  | '\\' :: code :: rest => unescapeChar code :: unescapeChars rest
  | c :: rest => c :: unescapeChars rest

/-- A text as it stands between the quotes of a string literal. -/
def escape (text : String) : String := String.ofList (escapeChars text.toList)

/-- The text that stands between the quotes of a string literal. -/
def unescape (text : String) : String := String.ofList (unescapeChars text.toList)

/-- The string literal of a text, as characters. -/
def quoteChars (cs : List Char) : List Char := '\'' :: escapeChars cs ++ ['\'']

/-- The string literal of a text. -/
def quote (text : String) : String := String.ofList (quoteChars text.toList)

theorem unescapeChar_of_escapeCode? {c code : Char} (h : escapeCode? c = some code) : unescapeChar code = c := by
  unfold escapeCode? at h
  split at h <;> simp only [Option.some.injEq, reduceCtorEq] at h <;> subst h <;> rfl

theorem unescapeChars_cons {c : Char} (hc : c ≠ '\\') (rest : List Char) :
    unescapeChars (c :: rest) = c :: unescapeChars rest := by
  rw [unescapeChars]
  · exact fun h => absurd h hc
  · exact fun _ _ h => absurd h hc

theorem unescapeChars_escapeChar_append (c : Char) (rest : List Char) :
    unescapeChars (escapeChar c ++ rest) = c :: unescapeChars rest := by
  unfold escapeChar
  split
  · next code h => simp [unescapeChars, unescapeChar_of_escapeCode? h]
  · next h =>
    have hc : c ≠ '\\' := by rintro rfl; simp [escapeCode?] at h
    exact unescapeChars_cons hc rest

theorem unescapeChars_escapeChars (cs : List Char) : unescapeChars (escapeChars cs) = cs := by
  induction cs with
  | nil => rfl
  | cons c rest ih =>
    rw [escapeChars, List.flatMap_cons, unescapeChars_escapeChar_append]
    exact congrArg (c :: ·) ih

theorem unescape_escape (text : String) : unescape (escape text) = text := by
  simp [unescape, escape, unescapeChars_escapeChars]

/-! ## Patterns of `LIKE` -/

/-- A character that a pattern matches literally. -/
def escapeLikeChar (c : Char) : List Char :=
  if c = '%' ∨ c = '_' ∨ c = '\\' then ['\\', c] else [c]

/-- The pattern that matches the text itself. -/
def escapeLike (text : String) : String := String.ofList (text.toList.flatMap escapeLikeChar)

/-- A character of a search text in a pattern: `*` stands for any text, all else for itself. -/
def wildcardChar (c : Char) : List Char :=
  if c = '*' then ['%'] else escapeLikeChar c

/-- The pattern of a search text whose `*` stand for any text. -/
def wildcardPattern (text : String) : String := String.ofList (text.toList.flatMap wildcardChar)

/-- The pattern of the texts that contain `text`. -/
def containsPattern (text : String) : String := "%" ++ escapeLike text ++ "%"

end TelemetrySearch.Sql
