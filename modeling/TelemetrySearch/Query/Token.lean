import TelemetrySearch.Formula

/-!
# Tokens of the search language

A query is a run of words, quoted phrases, relations, parentheses and the keywords `AND` and `OR`.
-/

namespace TelemetrySearch

/-- How a key stands to its value. -/
inductive Relation where
  | eq | ne | gt | ge | lt | le
  deriving DecidableEq, Repr

namespace Relation

/-- The relation as SQL writes it. -/
def symbol : Relation → String
  | eq => "="
  | ne => "!="
  | gt => ">"
  | ge => ">="
  | lt => "<"
  | le => "<="

/-- The relations that compare by order. -/
def isOrdering : Relation → Bool
  | eq | ne => false
  | gt | ge | lt | le => true

end Relation

/-- One lexical unit of a query. -/
inductive Token where
  /-- A bare word: a key, a value or a search word. -/
  | word (text : String)
  /-- The text between two double quotes. -/
  | phrase (text : String)
  | relation (relation : Relation)
  | leftParen
  | rightParen
  | keyword (connective : Connective)
  deriving DecidableEq, Repr

end TelemetrySearch
