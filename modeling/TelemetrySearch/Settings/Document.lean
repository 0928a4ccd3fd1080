import TelemetrySearch.Settings
import TelemetrySearch.Yaml.Node

/-!
# Settings from a document

The settings are a mapping with the fields `table`, `compiler` and `logging`; what is left out keeps its standard
value. Fields that are not known do not count, but a known field must not be given twice. A text is any scalar as it is
written, and where nothing is written stands an empty mapping, an empty list or an empty text.
-/

namespace TelemetrySearch.Yaml.Node

/-- The text of a scalar. -/
def text? : Node → Option String
  | scalar _ text => some text
  | sequence _ | mapping _ => none

/-- The truth value of a plain scalar. -/
def bool? : Node → Option Bool
  | scalar .plain text =>
    if text ∈ ["true", "True", "TRUE"] then some true
    else if text ∈ ["false", "False", "FALSE"] then some false
    else none
  | _ => none

/-- The items of a list. -/
def items? : Node → Option (List Node)
  | sequence items => some items
  | scalar .plain "" => some []
  | _ => none

/-- The entries of a mapping whose keys are texts. -/
def entries? : Node → Option (List (String × Node))
  | mapping entries => entries.mapM fun (key, value) => (text? key).map (·, value)
  | scalar .plain "" => some []
  | _ => none

/-- The value of a field that may be left out; refused if it is given twice. -/
def optional? {α : Type} (entries : List (String × Node)) (name : String) (standard : α)
    (decode : Node → Option α) : Option α :=
  match entries.filter (·.1 == name) with
  | [] => some standard
  | [(_, value)] => decode value
  | _ => none

/-- The value of a field that has to be there; refused if it is given twice. -/
def required? {α : Type} (entries : List (String × Node)) (name : String) (decode : Node → Option α) : Option α :=
  match entries.filter (·.1 == name) with
  | [(_, value)] => decode value
  | _ => none

end TelemetrySearch.Yaml.Node

namespace TelemetrySearch

open Yaml (Node)

/-- Reads an attribute map. -/
def AttributeMap.ofNode? (node : Node) : Option AttributeMap := do
  let entries ← node.entries?
  let stem ← Node.optional? entries "prefix" "" Node.text?
  let column ← Node.required? entries "column" Node.text?
  return ⟨stem, column⟩

/-- Reads the columns of keys, of which the last one for a key counts. -/
def Table.columnsOfNode? (node : Node) : Option (Dictionary String) := do
  let entries ← node.entries?
  let columns ← entries.mapM fun (key, value) => value.text?.map (key, ·)
  return .ofList columns

/-- Reads a table. -/
def Table.ofNode? (node : Node) : Option Table := do
  let entries ← node.entries?
  let columns ← Node.required? entries "keys_to_columns" Table.columnsOfNode?
  let bodyColumn ← Node.required? entries "body_column" Node.text?
  let attributes ← Node.optional? entries "attributes_columns" [] fun n => do
    (← n.items?).mapM AttributeMap.ofNode?
  let durations ← Node.optional? entries "duration_keys" Dictionary.empty fun n => do
    return KeySet.ofKeys (← (← n.items?).mapM Node.text?)
  return { columns, bodyColumn, attributes, durations }

/-- Reads what to do with unknown keys. -/
def UnknownKeys.ofNode? (node : Node) : Option UnknownKeys := do
  let entries ← node.entries?
  Node.optional? entries "unknown_fields" Settings.standard.unknownKeys fun n => n.text?.bind UnknownKeys.ofName?

/-- Reads how to log. -/
def Logging.ofNode? (node : Node) : Option Logging := do
  let entries ← node.entries?
  let level ← Node.optional? entries "level" Settings.standard.logging.level fun n => n.text?.bind LogLevel.ofName?
  let structured ← Node.optional? entries "structured" Settings.standard.logging.structured Node.bool?
  return ⟨level, structured⟩

namespace Settings

/-- Reads settings from a document. -/
def ofNode? (node : Node) : Option Settings := do
  let entries ← node.entries?
  let table ← Node.optional? entries "table" standard.table Table.ofNode?
  let unknownKeys ← Node.optional? entries "compiler" standard.unknownKeys UnknownKeys.ofNode?
  let logging ← Node.optional? entries "logging" standard.logging Logging.ofNode?
  return { standard with table, unknownKeys, logging }

/-- Reads settings from a text; one without a document says nothing. -/
def parse (text : String) : Except Error Settings :=
  match Node.parse text with
  | none => .error .document
  | some none => .ok standard
  | some (some node) =>
    match ofNode? node with
    | none => .error .document
    | some settings => .ok settings

end Settings

end TelemetrySearch
