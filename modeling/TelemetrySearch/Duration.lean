/-!
# Durations

A duration is written `digits`, `digits.digits`, or either with one of the units `ns`, `us`, `ms` and `s` behind it.
With a unit it is turned into nanoseconds, which have to be a whole number below 2^64; without one it is left alone.
-/

namespace TelemetrySearch

/-- The units of a duration. -/
inductive DurationUnit where
  | nanoseconds | microseconds | milliseconds | seconds
  deriving DecidableEq, Repr

namespace DurationUnit

/-- The nanoseconds in one unit. -/
def factor : DurationUnit → Nat
  | nanoseconds => 1
  | microseconds => 1000
  | milliseconds => 1000000
  | seconds => 1000000000

/-- The unit that the whole text names. -/
def ofChars? : List Char → Option DurationUnit
  | ['n', 's'] => some nanoseconds
  | ['u', 's'] => some microseconds
  | ['m', 's'] => some milliseconds
  | ['s'] => some seconds
  | _ => none

end DurationUnit

/-- The number that a row of decimal digits writes. -/
def decimalValue (digits : List Char) : Nat :=
  digits.foldl (fun n d => 10 * n + (d.toNat - '0'.toNat)) 0

/-- The parts of a written duration. -/
structure Duration where
  /-- The digits before the point. -/
  whole : List Char
  /-- The digits behind the point; empty if there is none. -/
  fraction : List Char
  unit : Option DurationUnit
  deriving DecidableEq, Repr

namespace Duration

/-- Why a text is no value of a duration column. -/
inductive Fault where
  /-- It is not written as a duration. -/
  | malformed
  /-- It is no whole number of nanoseconds, or too large. -/
  | notRepresentable
  deriving DecidableEq, Repr

/-- The fault of `text` in words. -/
def Fault.message (text : String) : Fault → String
  | malformed => s!"'{text}' is not a duration"
  | notRepresentable => s!"'{text}' is out of range or finer than a nanosecond"

/-- Reads the unit at the end of a duration. -/
def withUnit? (whole fraction : List Char) : List Char → Option Duration
  | [] => some ⟨whole, fraction, none⟩
  | cs => (DurationUnit.ofChars? cs).map fun unit => ⟨whole, fraction, some unit⟩

/-- Reads a duration. -/
def ofChars? (cs : List Char) : Option Duration :=
  let whole := cs.takeWhile Char.isDigit
  if whole.isEmpty then
    none
  else
    match cs.dropWhile Char.isDigit with
    | '.' :: rest =>
      let fraction := rest.takeWhile Char.isDigit
      if fraction.isEmpty then none else withUnit? whole fraction (rest.dropWhile Char.isDigit)
    | rest => withUnit? whole [] rest

/-- A row of digits without the zeros at its end. -/
def trimZeros (digits : List Char) : List Char := (digits.reverse.dropWhile (· == '0')).reverse

/-- The nanoseconds in the digits behind the point, if they are a whole number. More than nine digits, the last of
them not zero, are finer than a nanosecond in every unit. -/
def fractionNanos? (fraction : List Char) (unit : DurationUnit) : Option Nat :=
  let digits := trimZeros fraction
  if 9 < digits.length then
    none
  else
    let scale := Nat.pow 10 digits.length
    let numerator := decimalValue digits * unit.factor
    if numerator % scale = 0 then some (numerator / scale) else none

/-- The duration in nanoseconds, if that is a whole number below 2^64. -/
def nanos? (d : Duration) (unit : DurationUnit) : Option Nat :=
  match fractionNanos? d.fraction unit with
  | none => none
  | some fraction =>
    let total := decimalValue d.whole * unit.factor + fraction
    if total < Nat.pow 2 64 then some total else none

/-- A value of a duration column, in nanoseconds if it has a unit. -/
def normalize (text : String) : Except Fault String :=
  match ofChars? text.toList with
  | none => .error .malformed
  | some d =>
    match d.unit with
    | none => .ok text
    | some unit =>
      match d.nanos? unit with
      | none => .error .notRepresentable
      | some n => .ok (toString n)

end Duration

end TelemetrySearch
