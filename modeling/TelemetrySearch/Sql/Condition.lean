import TelemetrySearch.Formula
import TelemetrySearch.Sql.Placeholder

/-!
# Conditions

A condition is a piece of a `WHERE` clause with a `?` for each of its arguments. The leaves of a compiled query are
conditions, and so is the query as a whole.
-/

namespace TelemetrySearch

open Sql

/-- SQL text with placeholders, and the arguments for them in order. -/
structure Condition where
  fragment : String
  args : List String
  deriving DecidableEq, Repr

namespace Condition

/-- The condition that nothing meets. -/
def never : Condition := ⟨"1 = 0", []⟩

/-- The condition that the given one does not hold. -/
def negate (c : Condition) : Condition := ⟨"NOT (" ++ c.fragment ++ ")", c.args⟩

/-- The condition that one of the given ones holds. -/
def anyOf (cs : List Condition) : Condition :=
  ⟨"(" ++ String.intercalate " OR " (cs.map fragment) ++ ")", cs.flatMap args⟩

/-- The condition with its arguments put in. -/
def render (c : Condition) : Except PlaceholderFault String := interpolate c.fragment c.args

end Condition

/-- A formula of conditions as one condition. -/
def Formula.condition (f : Formula Condition) : Condition :=
  ⟨f.text Condition.fragment false, f.leaves.flatMap Condition.args⟩

end TelemetrySearch
