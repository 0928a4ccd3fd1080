import TelemetrySearch.Query.Token

/-!
# Terms

A term is the smallest part of a query with a meaning: a literal searched for in the body, or a key with a relation
and a value.
-/

namespace TelemetrySearch

/-- A value as it was typed. -/
structure Literal where
  text : String
  /-- Whether it stood between double quotes. -/
  quoted : Bool
  deriving DecidableEq, Repr

namespace Literal

/-- A literal without quotes. -/
def word (text : String) : Literal := ⟨text, false⟩

/-- A literal in quotes. -/
def phrase (text : String) : Literal := ⟨text, true⟩

/-- Whether the literal holds the wildcard `*`. -/
def hasWildcard (l : Literal) : Bool := l.text.toList.contains '*'

/-- The literal as a query writes it. -/
def spelling (l : Literal) : String := if l.quoted then "\"" ++ l.text ++ "\"" else l.text

end Literal

/-- What stands behind a relation. -/
inductive Value where
  | single (literal : Literal)
  /-- Alternatives, of which one has to hold. -/
  | list (literals : List Literal)
  deriving DecidableEq, Repr

/-- The value as a query writes it. -/
def Value.spelling : Value → String
  | single l => l.spelling
  | list ls => "(" ++ String.intercalate " OR " (ls.map Literal.spelling) ++ ")"

/-- The smallest part of a query with a meaning. -/
inductive Term where
  /-- A literal searched for in the body column. -/
  | body (literal : Literal)
  | keyed (key : String) (relation : Relation) (value : Value)
  deriving DecidableEq, Repr

/-- The term as a query writes it. -/
def Term.spelling : Term → String
  | body l => l.spelling
  | keyed key relation value => key ++ relation.symbol ++ value.spelling

end TelemetrySearch
