import TelemetrySearch.Yaml.Token

/-!
# Nodes of a document

A document is a tree of scalars, sequences and mappings. `Node.parse` reads the one document of a text; a text of
comments alone has none.

The functions that read tokens take the number of steps they may use. Of three steps in a row one uses up a token, so
three times the number of tokens is enough.
-/

namespace TelemetrySearch.Yaml

/-- A node of a document. -/
inductive Node where
  | scalar (style : Style) (text : String)
  | sequence (items : List Node)
  | mapping (entries : List (Node × Node))
  deriving Repr

/-- What an entry of a mapping stands in. An entry of a flow sequence is a mapping of its own. -/
inductive Around where
  | block
  | flowSequence
  | flowMapping
  deriving DecidableEq, Repr

namespace Around

/-- Whether nodes are written in flow style. -/
def inFlow (around : Around) : Bool := around != block

/-- Whether the value of an entry is left out in front of the token. -/
def endsValue : Around → Token → Bool
  | block, .key | block, .value | block, .blockEnd => true
  | flowSequence, .flowEntry | flowSequence, .flowSequenceEnd => true
  | flowMapping, .flowEntry | flowMapping, .flowMappingEnd => true
  | _, _ => false

/-- Whether the key of an entry is left out in front of the token. -/
def endsKey (around : Around) (t : Token) : Bool := t == .value || around.endsValue t

end Around

namespace Node

/-- The node where nothing is written. -/
def empty : Node := .scalar .plain ""

/-- The tokens in front of the next item of a flow collection: there is a comma before all but the first. -/
def nextItem (first : Bool) : List Token → Option (List Token)
  | .flowEntry :: rest => some (if first then .flowEntry :: rest else rest)
  | tokens => if first then some tokens else none

mutual

/-- Reads a node. There are no blocks inside a flow collection; the key or the value of a block mapping may be a
sequence without a block of its own, which `bare` allows. -/
def read (steps : Nat) (inFlow bare : Bool) (tokens : List Token) : Option (Node × List Token) :=
  match steps with
  | 0 => none
  | steps + 1 =>
    match tokens with
    | .scalar style text :: rest => some (.scalar style text, rest)
    | .flowSequence :: rest => (readFlowItems steps true rest).map fun (items, rest) => (.sequence items, rest)
    | .flowMapping :: rest => (readFlowEntries steps true rest).map fun (entries, rest) => (.mapping entries, rest)
    | .blockSequence :: rest =>
      if inFlow then none else (readItems steps rest).map fun (items, rest) => (.sequence items, rest)
    | .blockMapping :: rest =>
      if inFlow then none else (readEntries steps rest).map fun (entries, rest) => (.mapping entries, rest)
    | .blockEntry :: rest =>
      if bare then (readBareItems steps (.blockEntry :: rest)).map fun (items, rest) => (.sequence items, rest)
      else none
    | _ => none

/-- Reads the items of a block sequence. -/
def readItems (steps : Nat) (tokens : List Token) : Option (List Node × List Token) :=
  match steps with
  | 0 => none
  | steps + 1 =>
    match tokens with
    | .blockEnd :: rest => some ([], rest)
    | .blockEntry :: .blockEntry :: rest => do
      let (items, rest) ← readItems steps (.blockEntry :: rest)
      return (empty :: items, rest)
    | .blockEntry :: .blockEnd :: rest => some ([empty], rest)
    | .blockEntry :: rest => do
      let (item, rest) ← read steps false false rest
      let (items, rest) ← readItems steps rest
      return (item :: items, rest)
    | _ => none

/-- Reads the items of a sequence without a block of its own. -/
def readBareItems (steps : Nat) (tokens : List Token) : Option (List Node × List Token) :=
  match steps with
  | 0 => none
  | steps + 1 =>
    match tokens with
    | .blockEntry :: .blockEntry :: rest => do
      let (items, rest) ← readBareItems steps (.blockEntry :: rest)
      return (empty :: items, rest)
    | .blockEntry :: rest => do
      let (item, rest) ←
        if rest.head?.any Around.block.endsValue then some (empty, rest) else read steps false false rest
      let (items, rest) ← readBareItems steps rest
      return (item :: items, rest)
    | _ => some ([], tokens)

/-- Reads the entries of a block mapping. -/
def readEntries (steps : Nat) (tokens : List Token) : Option (List (Node × Node) × List Token) :=
  match steps with
  | 0 => none
  | steps + 1 =>
    match tokens with
    | .blockEnd :: rest => some ([], rest)
    | .key :: rest => do
      let (key, rest) ← readKey steps .block rest
      let (value, rest) ← readValue steps .block rest
      let (entries, rest) ← readEntries steps rest
      return ((key, value) :: entries, rest)
    | _ => none

/-- Reads the key of an entry. In a flow sequence the token in front of which a key is left out is used up with it. -/
def readKey (steps : Nat) (around : Around) (tokens : List Token) : Option (Node × List Token) :=
  match steps with
  | 0 => none
  | steps + 1 =>
    if tokens.head?.any around.endsKey then
      some (empty, if around = .flowSequence then tokens.tail else tokens)
    else
      read steps around.inFlow (!around.inFlow) tokens

/-- Reads the value of an entry. -/
def readValue (steps : Nat) (around : Around) (tokens : List Token) : Option (Node × List Token) :=
  match steps with
  | 0 => none
  | steps + 1 =>
    match tokens with
    | .value :: rest =>
      if rest.head?.any around.endsValue then some (empty, rest)
      else read steps around.inFlow (!around.inFlow) rest
    | _ => some (empty, tokens)

/-- Reads the items of a flow sequence; an item may be a mapping of a single entry. -/
def readFlowItems (steps : Nat) (first : Bool) (tokens : List Token) : Option (List Node × List Token) :=
  match steps with
  | 0 => none
  | steps + 1 =>
    match tokens with
    | .flowSequenceEnd :: rest => some ([], rest)
    | _ => do
      match ← nextItem first tokens with
      | .flowSequenceEnd :: rest => some ([], rest)
      | .key :: rest => do
        let (key, rest) ← readKey steps .flowSequence rest
        let (value, rest) ← readValue steps .flowSequence rest
        let (items, rest) ← readFlowItems steps false rest
        return (.mapping [(key, value)] :: items, rest)
      | rest => do
        let (item, rest) ← read steps true false rest
        let (items, rest) ← readFlowItems steps false rest
        return (item :: items, rest)

/-- Reads the entries of a flow mapping; a key may stand alone. -/
def readFlowEntries (steps : Nat) (first : Bool) (tokens : List Token) :
    Option (List (Node × Node) × List Token) :=
  match steps with
  | 0 => none
  | steps + 1 =>
    match tokens with
    | .flowMappingEnd :: rest => some ([], rest)
    | _ => do
      match ← nextItem first tokens with
      | .flowMappingEnd :: rest => some ([], rest)
      | .key :: rest => do
        let (key, rest) ← readKey steps .flowMapping rest
        let (value, rest) ← readValue steps .flowMapping rest
        let (entries, rest) ← readFlowEntries steps false rest
        return ((key, value) :: entries, rest)
      | rest => do
        let (key, rest) ← read steps true false rest
        let (entries, rest) ← readFlowEntries steps false rest
        return ((key, empty) :: entries, rest)

end

/-- Reads the content of a document, which is empty in front of a marker or at the end. -/
def readContent (tokens : List Token) : Option (Node × List Token) :=
  match tokens with
  | [] | .documentStart :: _ | .documentEnd :: _ => some (empty, tokens)
  | _ => read (3 * tokens.length + 3) false false tokens

/-- The document that the tokens are; `some none` if there is none, and no document if there is more than one. -/
def ofTokens? (tokens : List Token) : Option (Option Node) :=
  match tokens with
  | [] => some none
  | .documentEnd :: _ => none
  | _ => do
    let (node, rest) ← readContent (if tokens.head? = some .documentStart then tokens.tail else tokens)
    if (rest.dropWhile (· == .documentEnd)).isEmpty then some (some node) else none

/-- Reads the document of a text; `some none` if the text has none. -/
def parse (text : String) : Option (Option Node) := do ofTokens? (← Token.scan text)

end Node

end TelemetrySearch.Yaml
