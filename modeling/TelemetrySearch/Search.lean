import TelemetrySearch.Error
import TelemetrySearch.Field
import TelemetrySearch.Query.Grammar
import TelemetrySearch.Query.Lexer
import TelemetrySearch.Sql.Literal
import TelemetrySearch.Sql.Statement

/-!
# Searches

A search compiles queries for one table. Each term becomes a condition on a field of the table; the formula of the
terms becomes the formula of their conditions. What the user typed only ever becomes an argument: the text of a
condition is made of the names in the layout.

`Search.formula?` compiles a query, `Search.events` lists what there is to log on the way.
-/

namespace TelemetrySearch

open Sql

/-- What to do with a key for which the table has no field. -/
inductive UnknownKeys where
  /-- Refuse the query. -/
  | reject
  /-- Let the term match nothing. -/
  | matchNone
  deriving DecidableEq, Repr

/-! ## Conditions on a field -/

namespace Field

/-- The condition that the body holds what a literal asks for: the word itself, a pattern if it has a wildcard, or
the phrase anywhere. -/
def search (f : Field) (l : Literal) : Condition :=
  if l.hasWildcard then ⟨f.expression ++ " ILIKE ?", [wildcardPattern l.text]⟩
  else if l.quoted then ⟨f.expression ++ " ILIKE ?", [containsPattern l.text]⟩
  else ⟨"hasTokenCaseInsensitive(" ++ f.expression ++ ", ?)", [l.text]⟩

/-- The argument that a literal without a wildcard becomes. -/
def argument (f : Field) (l : Literal) : Except ValueFault String :=
  match f with
  | column _ true =>
    match Duration.normalize l.text with
    | .ok nanos => .ok nanos
    | .error fault => .error (.duration l.text fault)
  | _ => .ok l.text

/-- Whether values of the field can be compared by order. -/
def isOrdered : Field → Bool
  | cell .. => false
  | column .. | body _ => true

/-- The condition that the field stands in a relation to a literal. -/
def compare (f : Field) (r : Relation) (l : Literal) : Except ValueFault Condition :=
  if l.hasWildcard then
    if r.isOrdering then .error (.orderedWildcard r)
    else .ok ⟨f.operand r.isOrdering true ++ " ILIKE ?", f.args ++ [wildcardPattern l.text]⟩
  else if r.isOrdering && !f.isOrdered then .error (.orderedAttribute r)
  else (f.argument l).map fun arg =>
    ⟨f.operand r.isOrdering false ++ " " ++ r.symbol ++ " ?", f.args ++ [arg]⟩

/-- The condition that the field stands in a relation to a value; for a list, to one of its literals. -/
def compareValue (f : Field) (r : Relation) : Value → Except ValueFault Condition
  | .single l => f.compare r l
  | .list ls => (ls.mapM (f.compare r)).map Condition.anyOf

end Field

/-- The relation whose condition is built; `!=` is built as `=` and negated as a whole. -/
def Relation.base : Relation → Relation
  | ne => eq
  | r => r

/-- The condition of a term, from the condition for the base of its relation. -/
def Relation.finish (r : Relation) (c : Condition) : Condition :=
  if r = ne then c.negate else c

/-! ## Queries -/

/-- A table to search, and what to do with keys that it does not have. -/
structure Search where
  table : Table
  unknownKeys : UnknownKeys

namespace Search

/-- Compiles a term. -/
def term (s : Search) : Term → Except Error Condition
  | .body l => .ok (s.table.bodyField.search l)
  | .keyed key r value =>
    match s.table.resolve key with
    | some field =>
      match field.compareValue r.base value with
      | .ok c => .ok (r.finish c)
      | .error fault => .error (.invalidValue key fault)
    | none =>
      match s.unknownKeys with
      | .reject => .error (.unknownField key)
      | .matchNone => .ok (r.finish .never)

/-- Compiles what has been read of a query. A term that does not compile comes before the fault that ended the
reading. -/
def compileReading (s : Search) (reading : Reading (Option (Formula Term))) :
    Except Error (Option (Formula Condition)) :=
  match reading.result with
  | .ok none => .ok none
  | .ok (some f) => (f.traverse s.term).map some
  | .error fault =>
    match reading.terms.mapM s.term with
    | .ok _ => .error (.malformedQuery fault)
    | .error e => .error e

/-- Compiles a list of tokens; there is no formula without tokens. -/
def compileTokens (s : Search) (tokens : List Token) : Except Error (Option (Formula Condition)) :=
  s.compileReading (readQuery tokens)

/-- Compiles a query; there is no formula if the query has no terms. -/
def formula? (s : Search) (query : String) : Except Error (Option (Formula Condition)) :=
  match tokenize query with
  | .ok tokens => s.compileTokens tokens
  | .error fault => .error (.malformedQuery fault)

/-- Compiles a query to one condition. -/
def condition? (s : Search) (query : String) : Except Error (Option Condition) :=
  (s.formula? query).map (Option.map Formula.condition)

/-- Adds the condition of a query to a row of conditions; a query without terms adds nothing. -/
def assign (s : Search) (conditions : List Condition) (query : String) : Except Error (List Condition) :=
  (s.condition? query).map fun c => conditions ++ c.toList

end Search

/-- The statement with the condition of a query added. -/
def Statement.assign (statement : Statement) (s : Search) (query : String) : Except Error Statement :=
  (s.assign statement.conditions query).map fun cs => { statement with conditions := cs }

/-! ## What is logged -/

/-- An event in the course of a compilation. -/
inductive Event where
  /-- The text has been cut into so many tokens. -/
  | lexed (tokens : Nat)
  /-- A key without a field matches nothing. -/
  | unknownKey (key : String)
  | compiledTerm (term : Term) (condition : Condition)
  | compiledQuery (formula : Formula Condition)
  deriving Repr

namespace Search

/-- The events of a term that compiles. -/
def termEvents (s : Search) (t : Term) : List Event :=
  match s.term t with
  | .error _ => []
  | .ok c =>
    match t with
    | .keyed key _ _ =>
      if (s.table.resolve key).isNone then [.unknownKey key, .compiledTerm t c] else [.compiledTerm t c]
    | .body _ => [.compiledTerm t c]

/-- The events of the compilation of a query. -/
def events (s : Search) (query : String) : List Event :=
  match tokenize query with
  | .error _ => []
  | .ok tokens =>
    let compiled := (readQuery tokens).terms.takeWhile fun t => (s.term t).isOk
    let last :=
      match s.compileTokens tokens with
      | .ok (some f) => [.compiledQuery f]
      | _ => []
    .lexed tokens.length :: compiled.flatMap s.termEvents ++ last

end Search

namespace Event

/-- How urgent the event is. -/
def level : Event → String
  | lexed _ | compiledQuery _ => "DEBUG"
  | unknownKey _ => "WARN"
  | compiledTerm .. => "TRACE"

/-- The event in words. -/
def message : Event → String
  | lexed _ => "lexed search query"
  | unknownKey _ => "unknown search key, matching nothing"
  | compiledTerm .. => "compiled term"
  | compiledQuery _ => "compiled search query"

/-- What the event is about, by name. -/
def fields : Event → List (String × String)
  | lexed tokens => [("tokens", toString tokens)]
  | unknownKey key => [("key", key)]
  | compiledTerm t c => [("term", t.spelling), ("predicate", c.fragment)]
  | compiledQuery f => [("predicates", toString f.leaves.length), ("condition", f.condition.fragment)]

end Event

end TelemetrySearch
