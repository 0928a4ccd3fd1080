/-!
# Tokens of a document

The documents are YAML with block and flow mappings and sequences, plain and quoted scalars, comments and the markers
`---` and `...`. Anchors, aliases, tags, directives and block scalars are refused.

`Token.scan` cuts a text into tokens. The structure of the blocks is in the columns of the text: a column further to the
right opens a block, and going back closes it with `blockEnd`. Whether a scalar is the key of a mapping shows only at
the `:` behind it, so the scanner remembers where a key may have started and puts the tokens `blockMapping` and `key`
in front of it later.
-/

namespace TelemetrySearch.Yaml

/-- How a scalar is written. -/
inductive Style where
  | plain | quoted
  deriving DecidableEq, Repr

/-- A token of a document. -/
inductive Token where
  | documentStart
  | documentEnd
  | blockSequence
  | blockMapping
  | blockEnd
  | flowSequence
  | flowSequenceEnd
  | flowMapping
  | flowMappingEnd
  | blockEntry
  | flowEntry
  | key
  | value
  | scalar (style : Style) (text : String)
  deriving DecidableEq, Repr

/-! ## Characters -/

/-- The characters that a document may hold. -/
def isPrintable (c : Char) : Bool :=
  let n := c.toNat
  n == 0x09 || n == 0x0A || n == 0x0D || (0x20 ≤ n && n ≤ 0x7E) || n == 0x85 ||
    (0xA0 ≤ n && n ≤ 0xD7FF) || (0xE000 ≤ n && n ≤ 0xFFFD) || 0x10000 ≤ n

/-- The characters that end a line, once `normalizeBreaks` has been applied. -/
def isBreak (c : Char) : Bool := c == '\n' || c == '\u2028' || c == '\u2029'

/-- The characters that separate within a line. -/
def isGap (c : Char) : Bool := c == ' ' || c == '\t'

/-- The byte order mark. It takes a column of its own and separates at the start of a line; anywhere else it is a
character like others. -/
def byteOrderMark : Char := '\ufeff'

/-- Writes every line end but the Unicode separators as a line feed. -/
def normalizeBreaks : List Char → List Char
  | [] => []
  | '\r' :: '\n' :: rest => '\n' :: normalizeBreaks rest
  | '\r' :: rest => '\n' :: normalizeBreaks rest
  | '\u0085' :: rest => '\n' :: normalizeBreaks rest
  | c :: rest => c :: normalizeBreaks rest

/-- Whether the text starts with something that separates, or ends. -/
def startsBlank : List Char → Bool
  | [] => true
  | c :: _ => isGap c || isBreak c

/-- The marker of a document that a line starts with. -/
def marker? : List Char → Option Token
  | '-' :: '-' :: '-' :: rest => if startsBlank rest then some .documentStart else none
  | '.' :: '.' :: '.' :: rest => if startsBlank rest then some .documentEnd else none
  | _ => none

/-! ## Scalars -/

/-- A position in a text. -/
structure Position where
  line : Nat
  column : Nat
  /-- The number of bytes in front of it. -/
  offset : Nat

namespace Position

/-- Where a text starts. -/
def start : Position := ⟨0, 0, 0⟩

/-- The position behind the character `c`. -/
def after (p : Position) (c : Char) : Position :=
  if isBreak c then ⟨p.line + 1, 0, p.offset + c.utf8Size⟩ else ⟨p.line, p.column + 1, p.offset + c.utf8Size⟩

end Position

/-- Where the scanner stands. -/
structure Cursor where
  rest : List Char
  position : Position

/-- The cursor behind the next `count` characters. -/
def Cursor.advance (cursor : Cursor) (count : Nat) : Cursor :=
  ⟨cursor.rest.drop count, (cursor.rest.take count).foldl Position.after cursor.position⟩

/-- The separators met inside a scalar since its last character. -/
structure Spacing where
  /-- The separators before the first line end, last one first. -/
  gap : List Char
  /-- The line ends, if there is one. -/
  breaks : Option (List Char)
  /-- Whether the first line end was taken back by a backslash. -/
  joined : Bool

namespace Spacing

/-- Nothing has been met. -/
def none : Spacing := ⟨[], Option.none, false⟩

/-- The line goes on behind a backslash. -/
def continuation : Spacing := ⟨[], some [], true⟩

/-- Whether a line end has been met. -/
def isMultiline (s : Spacing) : Bool := s.breaks.isSome

/-- Whether anything has been met. -/
def isPresent (s : Spacing) : Bool := s.isMultiline || !s.gap.isEmpty

/-- Adds a separator within a line; at the start of a line it does not count. -/
def addGap (s : Spacing) (c : Char) : Spacing :=
  if s.isMultiline then s else { s with gap := c :: s.gap }

/-- Adds a line end. -/
def addBreak (s : Spacing) (c : Char) : Spacing :=
  { s with gap := [], breaks := some (s.breaks.getD [] ++ [c]) }

/-- What the separators stand for, last character first: one line feed for a space, more for one less. -/
def folded (s : Spacing) : List Char :=
  match s.breaks with
  | .none => s.gap
  | some breaks =>
    if s.joined then breaks.reverse
    else
      match breaks with
      | ['\n'] => [' ']
      | '\n' :: more => more.reverse
      | other => other.reverse

end Spacing

/-- A scalar that has been read: its text, what is behind it, and whether a line ended on the way there. -/
structure Scanned where
  text : String
  cursor : Cursor
  multiline : Bool

/-- The scalar that ends in front of `cursor`, from its text, last character first, and the separators behind it. -/
def Scanned.ofReversed (text : List Char) (spacing : Spacing) (cursor : Cursor) : Scanned :=
  ⟨String.ofList text.reverse, cursor, spacing.isMultiline⟩

/-- The character with the given number, if there is one. -/
def charOf? (n : Nat) : Option Char := if h : n.isValidChar then some (Char.ofNatAux n h) else none

/-- The number that hexadecimal digits write. -/
def hexValue? (digits : List Char) : Option Nat :=
  digits.foldlM (fun n d =>
    if d.isDigit then some (16 * n + (d.toNat - '0'.toNat))
    else if 'a' ≤ d && d ≤ 'f' then some (16 * n + (d.toNat - 'a'.toNat + 10))
    else if 'A' ≤ d && d ≤ 'F' then some (16 * n + (d.toNat - 'A'.toNat + 10))
    else none) 0

/-- The character that `count` hexadecimal digits at the head of the text number. -/
def hexChar? (count : Nat) (cs : List Char) : Option Char :=
  let digits := cs.take count
  if digits.length = count then (hexValue? digits).bind charOf? else none

/-- The character that a backslash and the text spell, and how much of the text that takes. -/
def escape? : List Char → Option (Char × Nat)
  | [] => none
  | c :: rest =>
    match c with
    | '0' => some ('\x00', 1)
    | 'a' => some ('\x07', 1)
    | 'b' => some ('\x08', 1)
    | 't' | '\t' => some ('\t', 1)
    | 'n' => some ('\n', 1)
    | 'v' => some ('\x0b', 1)
    | 'f' => some ('\x0c', 1)
    | 'r' => some ('\r', 1)
    | 'e' => some ('\x1b', 1)
    | ' ' => some (' ', 1)
    | '"' => some ('"', 1)
    | '/' => some ('/', 1)
    | '\\' => some ('\\', 1)
    | 'N' => some ('\u0085', 1)
    | '_' => some ('\u00a0', 1)
    | 'L' => some ('\u2028', 1)
    | 'P' => some ('\u2029', 1)
    | 'x' => (hexChar? 2 rest).map (·, 3)
    | 'u' => (hexChar? 4 rest).map (·, 5)
    | 'U' => (hexChar? 8 rest).map (·, 9)
    | _ => none

/-- Reads a quoted scalar behind its opening quote, the next `skip` characters left out; `text` is what it holds so
far, last character first. -/
def quotedScalar (double : Bool) (skip : Nat) (position : Position) (text : List Char) (spacing : Spacing) :
    List Char → Option Scanned
  | [] => none
  | c :: rest =>
    let next := position.after c
    if 0 < skip then quotedScalar double (skip - 1) next text spacing rest
    else if isGap c then quotedScalar double 0 next text (spacing.addGap c) rest
    else if isBreak c then quotedScalar double 0 next text (spacing.addBreak c) rest
    else if position.column = 0 ∧ (marker? (c :: rest)).isSome then none
    else
      let text := spacing.folded ++ text
      if double then
        if c = '"' then some (.ofReversed text .none ⟨rest, next⟩)
        else if c = '\\' then
          if rest.head?.any isBreak then quotedScalar double 1 next text .continuation rest
          else
            match escape? rest with
            | some (spelled, length) => quotedScalar double length next (spelled :: text) .none rest
            | none => none
        else quotedScalar double 0 next (c :: text) .none rest
      else if c = '\'' then
        if rest.head? = some '\'' then quotedScalar double 1 next ('\'' :: text) .none rest
        else some (.ofReversed text .none ⟨rest, next⟩)
      else quotedScalar double 0 next (c :: text) .none rest

/-- The characters that end a plain scalar in a flow collection. -/
def isFlowIndicator (c : Char) : Bool := c == ',' || c == '[' || c == ']' || c == '{' || c == '}'

/-- Reads a plain scalar whose further lines start at the column `indent` or behind it; `text` is what it holds so far,
last character first. -/
def plainScalar (inFlow : Bool) (indent : Nat) (position : Position) (text : List Char) (spacing : Spacing) :
    List Char → Option Scanned
  | [] => some (.ofReversed text spacing ⟨[], position⟩)
  | c :: rest =>
    let next := position.after c
    if isGap c then
      if spacing.isMultiline && position.column < indent && c == '\t' then none
      else plainScalar inFlow indent next text (spacing.addGap c) rest
    else if isBreak c then plainScalar inFlow indent next text (spacing.addBreak c) rest
    else if spacing.isPresent && ((!inFlow && position.column < indent) || c == '#' ||
        (position.column == 0 && (marker? (c :: rest)).isSome)) then
      some (.ofReversed text spacing ⟨c :: rest, position⟩)
    else if inFlow && c == ':' && (rest.head?.any fun next => isFlowIndicator next || next == '?') then none
    else if (c == ':' && startsBlank rest) || (inFlow && isFlowIndicator c) then
      some (.ofReversed text spacing ⟨c :: rest, position⟩)
    else plainScalar inFlow indent next (c :: (spacing.folded ++ text)) .none rest

/-! ## The scanner -/

/-- A place where the key of a mapping may have started. -/
structure Candidate where
  /-- The number of tokens in front of it. -/
  index : Nat
  position : Position
  /-- Whether nothing but a key can stand there. -/
  required : Bool

/-- Whether a candidate cannot become a key any more at the position `p`: a key stands on one line and is at most 1024
bytes long. -/
def Candidate.isStale (p : Position) (c : Candidate) : Bool :=
  c.position.line < p.line || c.position.offset + 1024 < p.offset

/-- A text that is cut into tokens. -/
structure Scanner where
  cursor : Cursor
  tokens : Array Token
  /-- The columns of the open blocks, the innermost first. -/
  indents : List Nat
  /-- The candidate of each open flow collection, the innermost first, and last that of the block around them. -/
  candidates : List (Option Candidate)
  /-- Whether a key may start here. -/
  keyAllowed : Bool

namespace Scanner

/-- The scanner in front of a text. -/
def start (cs : List Char) : Scanner := ⟨⟨cs, .start⟩, #[], [], [none], true⟩

/-- The column of the scanner. -/
def column (s : Scanner) : Nat := s.cursor.position.column

/-- Whether a flow collection is open. -/
def inFlow (s : Scanner) : Bool := 1 < s.candidates.length

/-- The scanner with one more token. -/
def emit (s : Scanner) (t : Token) : Scanner := { s with tokens := s.tokens.push t }

/-- The scanner with a token put in front of those from `index` on. -/
def insertToken (s : Scanner) (index : Nat) (t : Token) : Scanner :=
  { s with tokens := s.tokens.insertIdxIfInBounds index t }

/-- The scanner behind the next `count` characters. -/
def advance (s : Scanner) (count : Nat) : Scanner := { s with cursor := s.cursor.advance count }

/-- Goes over separators, comments and line ends; a new line of a block may start a key. -/
def skipSpacing (inFlow inComment keyAllowed : Bool) (position : Position) : List Char → Cursor × Bool
  | [] => (⟨[], position⟩, keyAllowed)
  | c :: rest =>
    if isBreak c then skipSpacing inFlow false (keyAllowed || !inFlow) (position.after c) rest
    else if inComment || c == ' ' || (c == '\t' && (inFlow || !keyAllowed)) ||
        (c == byteOrderMark && position.column == 0) then
      skipSpacing inFlow inComment keyAllowed (position.after c) rest
    else if c == '#' then skipSpacing inFlow true keyAllowed (position.after c) rest
    else (⟨c :: rest, position⟩, keyAllowed)

/-- Goes to the next token. -/
def toToken (s : Scanner) : Scanner :=
  let (cursor, keyAllowed) := skipSpacing s.inFlow false s.keyAllowed s.cursor.position s.cursor.rest
  { s with cursor, keyAllowed }

/-- Forgets the candidates that cannot become keys any more. -/
def dropStale (s : Scanner) : Option Scanner :=
  let stale := Candidate.isStale s.cursor.position
  if s.candidates.any (·.any fun c => stale c && c.required) then none
  else some { s with candidates := s.candidates.map (·.filter fun c => !stale c) }

/-- Closes the blocks that stand further to the right than `column`. -/
def closeBlocks (s : Scanner) (column : Nat) : Scanner :=
  if s.inFlow then s
  else
    let kept := s.indents.dropWhile (column < ·)
    let closed := s.indents.length - kept.length
    { s with indents := kept, tokens := s.tokens ++ Array.replicate closed Token.blockEnd }

/-- Closes all blocks. -/
def closeAllBlocks (s : Scanner) : Scanner :=
  if s.inFlow then s
  else { s with indents := [], tokens := s.tokens ++ Array.replicate s.indents.length Token.blockEnd }

/-- Whether a block at `column` would stand further to the right than the open ones. -/
def opensBlock (s : Scanner) (column : Nat) : Bool := !s.inFlow && s.indents.head?.all (· < column)

/-- Opens a block at `column` if it stands further to the right than the open ones. -/
def openBlock (s : Scanner) (column : Nat) (t : Token) : Scanner :=
  if s.opensBlock column then { s.emit t with indents := column :: s.indents } else s

/-- Gives up the candidate of the innermost collection. -/
def removeCandidate (s : Scanner) : Option Scanner :=
  match s.candidates with
  | some c :: outer => if c.required then none else some { s with candidates := none :: outer }
  | _ => some s

/-- Remembers that a key may start here. -/
def saveCandidate (s : Scanner) : Option Scanner :=
  if s.keyAllowed then do
    let s ← s.removeCandidate
    let candidate : Candidate :=
      { index := s.tokens.size, position := s.cursor.position,
        required := !s.inFlow && s.indents.head? == some s.column }
    return { s with candidates := some candidate :: s.candidates.tail }
  else
    some s

/-- Reads the marker `t` of a document. -/
def scanMarker (s : Scanner) (t : Token) : Option Scanner := do
  let s ← s.closeAllBlocks.removeCandidate
  return { (s.advance 3).emit t with keyAllowed := false }

/-- Opens a flow collection. -/
def scanFlowStart (s : Scanner) (t : Token) : Option Scanner := do
  let s ← s.saveCandidate
  return { (s.advance 1).emit t with candidates := none :: s.candidates, keyAllowed := true }

/-- Closes a flow collection. -/
def scanFlowEnd (s : Scanner) (t : Token) : Option Scanner := do
  let s ← s.removeCandidate
  let candidates := if s.inFlow then s.candidates.tail else s.candidates
  return { (s.advance 1).emit t with candidates, keyAllowed := false }

/-- Reads the `,` of a flow collection. -/
def scanFlowEntry (s : Scanner) : Option Scanner := do
  let s ← s.removeCandidate
  return { (s.advance 1).emit .flowEntry with keyAllowed := true }

/-- Reads the `-` of a block sequence. -/
def scanBlockEntry (s : Scanner) : Option Scanner := do
  guard (s.inFlow || s.keyAllowed)
  let s ← (s.openBlock s.column .blockSequence).removeCandidate
  return { (s.advance 1).emit .blockEntry with keyAllowed := true }

/-- Reads the `?` of a mapping. -/
def scanKey (s : Scanner) : Option Scanner := do
  guard (s.inFlow || s.keyAllowed)
  let s ← (s.openBlock s.column .blockMapping).removeCandidate
  return { (s.advance 1).emit .key with keyAllowed := !s.inFlow }

/-- Reads the `:` of a mapping, which turns the candidate into a key. -/
def scanValue (s : Scanner) : Option Scanner :=
  match s.candidates with
  | some c :: outer =>
    let s := s.insertToken c.index .key
    let column := c.position.column
    let s :=
      if s.opensBlock column then { s.insertToken c.index .blockMapping with indents := column :: s.indents } else s
    some { (s.advance 1).emit .value with candidates := none :: outer, keyAllowed := false }
  | _ => do
    guard (s.inFlow || s.keyAllowed)
    let s := s.openBlock s.column .blockMapping
    return { (s.advance 1).emit .value with keyAllowed := !s.inFlow }

/-- Adds a scalar that has been read. -/
def takeScalar (s : Scanner) (style : Style) (scanned : Scanned) : Scanner :=
  { s.emit (.scalar style scanned.text) with cursor := scanned.cursor, keyAllowed := scanned.multiline }

/-- Reads a quoted scalar. -/
def scanQuoted (s : Scanner) (double : Bool) : Option Scanner := do
  let s ← s.saveCandidate
  let cursor := (s.advance 1).cursor
  let scanned ← quotedScalar double 0 cursor.position [] .none cursor.rest
  return s.takeScalar .quoted scanned

/-- Reads a plain scalar. -/
def scanPlain (s : Scanner) : Option Scanner := do
  let s ← s.saveCandidate
  let indent := (s.indents.head?.map (· + 1)).getD 0
  let scanned ← plainScalar s.inFlow indent s.cursor.position [] .none s.cursor.rest
  return s.takeScalar .plain scanned

/-- The characters that mean something at the start of a token. -/
def isIndicator (c : Char) : Bool := "-?:,[]{}#&*!|>'\"%@\x60".toList.contains c

/-- Reads the token that the text `c :: rest` of the scanner starts with. -/
def scanToken (s : Scanner) (c : Char) (rest : List Char) : Option Scanner :=
  match if s.column = 0 then marker? (c :: rest) else none with
  | some t => s.scanMarker t
  | none =>
    if c = '[' then s.scanFlowStart .flowSequence
    else if c = '{' then s.scanFlowStart .flowMapping
    else if c = ']' then s.scanFlowEnd .flowSequenceEnd
    else if c = '}' then s.scanFlowEnd .flowMappingEnd
    else if c = ',' then s.scanFlowEntry
    else if c = '-' ∧ startsBlank rest then s.scanBlockEntry
    else if c = '?' ∧ (s.inFlow ∨ startsBlank rest) then s.scanKey
    else if c = ':' ∧ (s.inFlow ∨ startsBlank rest) then s.scanValue
    else if c = '\'' then s.scanQuoted false
    else if c = '"' then s.scanQuoted true
    else if c = '-' ∨ c = '?' ∨ c = ':' ∨ (!isIndicator c && !isGap c) then s.scanPlain
    else none

/-- The tokens up to the end of the text, one in each of at most `steps` steps. -/
def run (steps : Nat) (s : Scanner) : Option (List Token) :=
  match steps with
  | 0 => none
  | steps + 1 => do
    let s ← s.toToken.dropStale
    let s := s.closeBlocks s.column
    match s.cursor.rest with
    | [] =>
      let s ← s.closeAllBlocks.removeCandidate
      return s.tokens.toList
    | c :: rest => (← s.scanToken c rest).run steps

end Scanner

/-- The tokens of a document, if its text has any structure. Every token uses up a character, so there are enough
steps for all of them and for the end. -/
def Token.scan (text : String) : Option (List Token) :=
  let cs := text.toList
  if cs.all isPrintable then (Scanner.start (normalizeBreaks cs)).run (cs.length + 1) else none

end TelemetrySearch.Yaml
