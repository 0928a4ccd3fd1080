import TelemetrySearch.Query.Token

/-!
# What makes a query malformed

The first group of faults is found in the text, the second in the order of the tokens.
-/

namespace TelemetrySearch

/-- The deepest nesting of groups that a query may use. -/
def maxDepth : Nat := 64

/-- Why a text or a list of tokens is no query. -/
inductive Fault where
  /-- A `)` without its `(`. -/
  | strayParen (position : Nat)
  /-- A double quote that nothing closes. -/
  | openQuote (position : Nat)
  /-- Something that is no value stands after a relation. -/
  | noValueAt (relation : Relation) (position : Nat)
  /-- The text ends after a relation. -/
  | noValueAtEnd (relation : Relation)
  /-- So many `(` are not closed. -/
  | openParens (count : Nat)
  | unexpectedCharacter (position : Nat)
  /-- The tokens end inside a group. -/
  | unmatchedLeft
  /-- A group ends that never began. -/
  | unmatchedRight
  | noLeftOperand (connective : Connective)
  /-- `connective` stands right after `previous`. -/
  | doubledConnective (connective previous : Connective)
  | noRightOperand (connective : Connective)
  | emptyGroup
  | tooDeep
  | quotedKey (relation : Relation)
  | noKey (relation : Relation)
  | noTerm
  | noValue (key : String)
  | emptyList (key : String)
  | badListItem (key : String)
  | badListSeparator (key : String)
  deriving DecidableEq, Repr

/-- The fault in words. -/
def Fault.message : Fault → String
  | strayParen position => s!"unmatched ')' at position {position}"
  | openQuote position => s!"unterminated quote at position {position}"
  | noValueAt relation position => s!"operator '{relation.symbol}' has no value at position {position}"
  | noValueAtEnd relation => s!"operator '{relation.symbol}' has no value"
  | openParens count => s!"{count} unmatched '('"
  | unexpectedCharacter position => s!"unexpected character at position {position}"
  | unmatchedLeft => "unmatched '('"
  | unmatchedRight => "unmatched ')'"
  | noLeftOperand connective => s!"'{connective.keyword}' has no term on its left"
  | doubledConnective connective previous => s!"'{connective.keyword}' directly follows '{previous.keyword}'"
  | noRightOperand connective => s!"'{connective.keyword}' has no term on its right"
  | emptyGroup => "empty group '()'"
  | tooDeep => s!"query nests deeper than {maxDepth} groups"
  | quotedKey relation => s!"operator '{relation.symbol}' must follow a bare key, not a quoted phrase"
  | noKey relation => s!"operator '{relation.symbol}' has no key"
  | noTerm => "expected a term"
  | noValue key => s!"'{key}' has no value"
  | emptyList key => s!"empty value list for '{key}'"
  | badListItem key => s!"expected a value in the list for '{key}'"
  | badListSeparator key => s!"values in the list for '{key}' must be separated by OR"

end TelemetrySearch
