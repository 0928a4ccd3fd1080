import TelemetrySearch.Sql.Condition

/-!
# Statements

A `SELECT` statement with its conditions, which all have to hold.
-/

namespace TelemetrySearch

open Sql

/-- A `SELECT` statement. -/
structure Statement where
  /-- The columns to select; none stand for all. -/
  columns : List String
  /-- What stands behind `FROM`. -/
  source : String
  conditions : List Condition
  limit : Option Nat
  deriving DecidableEq, Repr

namespace Statement

/-- The statement that says nothing yet. -/
def empty : Statement := ⟨[], "", [], none⟩

/-- The statement with one more condition. -/
def add (s : Statement) (c : Condition) : Statement := { s with conditions := s.conditions ++ [c] }

/-- The `WHERE` clause. -/
def whereClause (s : Statement) : String :=
  if s.conditions.isEmpty then "" else " WHERE " ++ String.intercalate " AND " (s.conditions.map Condition.fragment)

/-- The `LIMIT` clause. -/
def limitClause (s : Statement) : String :=
  match s.limit with
  | none => ""
  | some n => " LIMIT " ++ toString n

/-- The statement in SQL with placeholders. -/
def text (s : Statement) : String :=
  let columns := if s.columns.isEmpty then "*" else String.intercalate ", " s.columns
  "SELECT " ++ columns ++ " FROM " ++ s.source ++ s.whereClause ++ s.limitClause

/-- The arguments for the placeholders. -/
def args (s : Statement) : List String := s.conditions.flatMap Condition.args

/-- The statement with its arguments put in. -/
def render (s : Statement) : Except PlaceholderFault String := interpolate s.text s.args

end Statement

end TelemetrySearch
