import TelemetrySearch.Dictionary
import TelemetrySearch.Text

/-!
# Table layouts

A layout says where a table keeps what a query asks for: the keys with a column of their own, the columns that hold a
map of attributes, and the column that words without a key are looked for in. `Table.faults` lists what is wrong with
a layout; `Table.validate` reports the first of them.
-/

namespace TelemetrySearch

/-- A column with a map of attributes, for the keys that start with `stem`. -/
structure AttributeMap where
  stem : String
  column : String
  deriving DecidableEq, Repr

/-- Whether the map takes every key. -/
def AttributeMap.isCatchAll (m : AttributeMap) : Bool := m.stem.isEmpty

/-- Whether the key starts with the stem of the map. -/
def AttributeMap.covers (m : AttributeMap) (key : String) : Bool := m.stem.toList.isPrefixOf key.toList

/-- The layout of a table. -/
structure Table where
  /-- The column of each key that has its own. -/
  columns : Dictionary String
  /-- The column in which words without a key are looked for. -/
  bodyColumn : String
  /-- The attribute maps, in the order in which they are tried. -/
  attributes : List AttributeMap
  /-- The keys whose values are durations. -/
  durations : KeySet

/-- What is wrong with a layout. -/
inductive LayoutFault where
  | blankBody
  | emptyKey
  | blankColumn (key : String)
  | blankAttributeColumn (stem : String)
  | secondCatchAll
  | repeatedStem (stem : String)
  | unmappedDuration (key : String)
  deriving DecidableEq, Repr

/-- The fault in words. -/
def LayoutFault.message : LayoutFault → String
  | blankBody => "body_column must not be empty"
  | emptyKey => "keys_to_columns contains an empty key"
  | blankColumn key => s!"Column for key '{key}' must not be empty"
  | blankAttributeColumn stem => s!"Attribute column for prefix '{stem}' must not be empty"
  | secondCatchAll => "At most one catch-all attribute column may be configured"
  | repeatedStem stem => s!"Duplicate attribute prefix '{stem}'"
  | unmappedDuration key => s!"Duration key '{key}' is not mapped to a column"

namespace Table

/-- Whether the values of the key are durations. -/
def isDuration (t : Table) (key : String) : Bool := t.durations.contains key

/-- The attribute map that takes every key. -/
def catchAll? (t : Table) : Option AttributeMap := t.attributes.find? AttributeMap.isCatchAll

/-! ## Validation -/

/-- What is wrong with the column of a key. -/
def columnFaults (entry : String × String) : List LayoutFault :=
  (if entry.1.isEmpty then [.emptyKey] else []) ++
    (if isBlankText entry.2 then [.blankColumn entry.1] else [])

/-- What is wrong with attribute maps that stand behind maps with the stems `seen`. -/
def attributeFaults (seen : List String) : List AttributeMap → List LayoutFault
  | [] => []
  | m :: rest =>
    (if isBlankText m.column then [.blankAttributeColumn m.stem] else []) ++
      (if m.stem ∈ seen then [if m.isCatchAll then .secondCatchAll else .repeatedStem m.stem] else []) ++
        attributeFaults (m.stem :: seen) rest

/-- All that is wrong with the layout, in the order in which it is looked for. -/
def faults (t : Table) : List LayoutFault :=
  (if isBlankText t.bodyColumn then [.blankBody] else []) ++ t.columns.entries.flatMap columnFaults ++
    attributeFaults [] t.attributes ++
      (t.durations.keys.filter fun key => !t.columns.contains key).map .unmappedDuration

/-- Refuses a layout with a fault, for the first one. -/
def validate (t : Table) : Except LayoutFault Unit :=
  match t.faults with
  | [] => .ok ()
  | fault :: _ => .error fault

/-! ## Layouts that come with the program -/

/-- The layout of a table of spans. -/
def traces : Table where
  columns := .ofList
    [("duration", "Duration"), ("level", "Level"), ("span_name", "SpanName"), ("service_name", "ServiceName"),
      ("source", "Source"), ("http.url", "HttpUrl"), ("trace_id", "TraceId"), ("span_id", "SpanId"),
      ("parent_span_id", "ParentSpanId"), ("span_kind", "SpanKind")]
  bodyColumn := "SpanName"
  attributes := [⟨"http.", "HttpAttributes"⟩, ⟨"", "TraceAttributes"⟩]
  durations := .ofKeys ["duration"]

/-- The layout of a table of log records. -/
def logs : Table where
  columns := .ofList
    [("level", "SeverityText"), ("service_name", "ServiceName"), ("service_version", "ServiceVersion"),
      ("environment", "Environment"), ("source", "Source"), ("trace_id", "TraceId"), ("span_id", "SpanId"),
      ("secure_session_id", "SecureSessionId")]
  bodyColumn := "Body"
  attributes := [⟨"", "LogAttributes"⟩]
  durations := .empty

end Table

end TelemetrySearch
