import TelemetrySearch.Sql.Literal

/-!
# Arguments for placeholders

A `?` outside the string literals of a SQL text is a placeholder. `interpolate` puts the string literals of the
arguments in the place of the placeholders, one for one and in order.
-/

namespace TelemetrySearch.Sql

/-- Why arguments do not fit a text. -/
inductive PlaceholderFault where
  /-- There are more placeholders than the `supplied` arguments. -/
  | missing (supplied : Nat)
  /-- So many arguments have no placeholder. -/
  | unused (count : Nat)
  deriving DecidableEq, Repr

/-- The fault in words. -/
def PlaceholderFault.message : PlaceholderFault → String
  | missing supplied => s!"not enough arguments: {supplied} supplied"
  | unused count => s!"{count} argument(s) left without a placeholder"

/-- Where a character of SQL text stands. -/
inductive Region where
  /-- Outside string literals. -/
  | code
  /-- Inside a string literal. -/
  | literal
  /-- Inside a string literal, right behind a backslash. -/
  | afterBackslash
  deriving DecidableEq, Repr

/-- The region behind the character `c`. -/
def Region.next (c : Char) : Region → Region
  | code => if c = '\'' then literal else code
  | literal => if c = '\\' then afterBackslash else if c = '\'' then code else literal
  | afterBackslash => literal

/-- Goes through a text of which `written` is done, last character first, with `args` left of the `supplied`
arguments. -/
def fill (supplied : Nat) (region : Region) (args : List String) (written : List Char) :
    List Char → Except PlaceholderFault (List Char)
  | [] => if args.isEmpty then .ok written.reverse else .error (.unused args.length)
  | c :: rest =>
    if region = .code ∧ c = '?' then
      match args with
      | [] => .error (.missing supplied)
      | arg :: args => fill supplied .code args ((quoteChars arg.toList).reverse ++ written) rest
    else
      fill supplied (region.next c) args (c :: written) rest

/-- The text with its placeholders replaced by the arguments. -/
def interpolate (text : String) (args : List String) : Except PlaceholderFault String :=
  (fill args.length .code args [] text.toList).map String.ofList

end TelemetrySearch.Sql
