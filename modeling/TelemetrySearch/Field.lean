import TelemetrySearch.Table

/-!
# Fields

A field is where a table keeps the value of a key. A column of its own wins; else the first attribute map whose stem
starts the key is used, and last the map that takes every key.
-/

namespace TelemetrySearch

/-- Where a value is kept. -/
inductive Field where
  /-- A column; `duration` tells whether it holds nanoseconds. -/
  | column (name : String) (duration : Bool)
  /-- The cell of `key` in the column `map` of attributes. -/
  | cell (map key : String)
  /-- The column that words without a key are looked for in. -/
  | body (name : String)
  deriving DecidableEq, Repr

namespace Field

/-- The field in SQL, with a placeholder for the key of an attribute. -/
def expression : Field → String
  | column name _ => name
  | cell map _ => map ++ "[?]"
  | body name => name

/-- The arguments for the placeholders of `expression`. -/
def args : Field → List String
  | cell _ key => [key]
  | column .. | body _ => []

/-- Whether the field is turned into a string first. Only a column is, and neither to compare by order nor to match a
pattern. -/
def needsCast (ordering wildcard : Bool) : Field → Bool
  | column .. => !ordering && !wildcard
  | cell .. | body _ => false

/-- The field as the left side of a test. -/
def operand (ordering wildcard : Bool) (f : Field) : String :=
  if f.needsCast ordering wildcard then "toString(" ++ f.expression ++ ")" else f.expression

end Field

namespace Table

/-- The field that words without a key are looked for in. -/
def bodyField (t : Table) : Field := .body t.bodyColumn

/-- The attribute map for a key. -/
def attributeMap? (t : Table) (key : String) : Option AttributeMap :=
  (t.attributes.find? fun m => !m.isCatchAll && m.covers key).or t.catchAll?

/-- The field of a key, if the table has one for it. -/
def resolve (t : Table) (key : String) : Option Field :=
  match t.columns.get? key with
  | some name => some (.column name (t.isDuration key))
  | none => (t.attributeMap? key).map fun m => .cell m.column key

end Table

end TelemetrySearch
