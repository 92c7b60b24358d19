import Easel.Yaml.Token.Scalar

/-!
# Reading tokens

The tokens of a document, one after another. Growing indentation starts a block and shrinking
indentation ends blocks. A scalar, or whatever else may be a key, is found to be one only when a
colon follows it; the key token is then put in front of it, and a block mapping may start there.
-/

namespace Easel.Yaml

/-- A place where a key without a question mark may have started. -/
structure KeyPlace where
  /-- The block around needs a key here. -/
  required : Bool
  /-- How many tokens come before it. -/
  tokens : Nat
  mark : Mark

/-- The state of reading tokens. -/
structure Scanner where
  cursor : Cursor
  /-- The column of the innermost block, `-1` outside all blocks. -/
  indent : Int := -1
  /-- The columns of the blocks around it. -/
  outer : List Int := []
  /-- Whether a key may start here. -/
  keyAllowed : Bool := true
  /-- The pending key place outside all flow collections and in each of them, innermost first. -/
  places : List (Option KeyPlace) := [none]
  tokens : Array Token := #[]

namespace Cursor

/-! ## Anchors, tags and directives -/

/-- Reads the name of an anchor or an alias. -/
def readAnchor (c : Cursor) : Option (String × Cursor) :=
  let (name, c) := c.readWhile isWord
  if name.isEmpty then none
  else if c.breaksAt 0 || c.seesAny ("?:,]\x7d%@`".toList.contains ·) then
    some (String.ofList name, c)
  else none

/-- The byte of a `%` escape. -/
def escapedByte? (c : Cursor) : Option UInt8 := do
  if c.sees '%' then
    let high ← (c.at? 1).bind (Text.digit? 16)
    let low ← (c.at? 2).bind (Text.digit? 16)
    return UInt8.ofNat (16 * high + low)
  else none

/-- The number of bytes of the character that starts with this byte. -/
def utf8Width? (b : UInt8) : Option Nat :=
  if b < 0x80 then some 1
  else if b &&& 0xE0 = 0xC0 then some 2
  else if b &&& 0xF0 = 0xE0 then some 3
  else if b &&& 0xF8 = 0xF0 then some 4
  else none

/-- Reads `n` escaped bytes that continue a character. -/
def readContinuation : Nat → Cursor → Option (List UInt8 × Cursor)
  | 0, c => some ([], c)
  | n + 1, c => do
    let b ← c.escapedByte?
    if b &&& 0xC0 ≠ 0x80 then none
    else
      let (bytes, c) ← readContinuation n (c.skipN 3)
      return (b :: bytes, c)

/-- Reads a character written as `%` escapes of its bytes. -/
def readEscapedChar (c : Cursor) : Option (List Char × Cursor) := do
  let first ← c.escapedByte?
  let width ← utf8Width? first
  let (bytes, c) ← readContinuation (width - 1) (c.skipN 3)
  let text ← String.fromUTF8? ⟨(first :: bytes).toArray⟩
  return (text.toList, c)

/-- Characters of tags; `verbatim` ones may hold more. -/
def isTagChar (verbatim : Bool) (c : Char) : Bool :=
  isWord c || ";/?:@&=+$.%!~*'()".toList.contains c || (verbatim && ",[]".toList.contains c)

/-- Reads the text of a tag, which may be empty. -/
def readTagText (verbatim : Bool) : Nat → Cursor → Option (List Char × Cursor)
  | 0, _ => none
  | fuel + 1, c =>
    match c.rest with
    | [] => some ([], c)
    | x :: _ =>
      if !isTagChar verbatim x then some ([], c)
      else do
        let (start, c) ← if x = '%' then c.readEscapedChar else some ([x], c.skip)
        let (text, c) ← readTagText verbatim fuel c
        return (start ++ text, c)

/-- Reads a tag handle: `!`, or a word between two exclamation marks. The word may also turn out to
be no handle, if no mark follows. -/
def readHandle (c : Cursor) : Option (List Char × Cursor) :=
  if c.sees '!' then
    let (word, c) := c.skip.readWhile isWord
    if c.sees '!' then some ('!' :: (word ++ ['!']), c.skip) else some ('!' :: word, c)
  else none

/-- Whether a handle is one that directives can define. -/
def isNamedHandle (handle : List Char) : Bool :=
  decide (2 ≤ handle.length) && handle.getLast? == some '!'

/-- Reads a tag as its handle and the rest. -/
def readTag (flow : Bool) (c : Cursor) : Option (String × String × Cursor) := do
  let (handle, suffix, c) ←
    if c.at? 1 == some '<' then do
      let c := c.skipN 2
      let (text, c) ← readTagText true (c.rest.length + 1) c
      if text.isEmpty || !c.sees '>' then none else some ([], text, c.skip)
    else do
      let (handle, c) ← c.readHandle
      let (text, c) ← readTagText false (c.rest.length + 1) c
      if isNamedHandle handle then
        if text.isEmpty then none else some (handle, text, c)
      else
        let suffix := handle.drop 1 ++ text
        if suffix.isEmpty then some ([], ['!'], c) else some (['!'], suffix, c)
  if (flow && c.sees ',') || c.breaksAt 0 then
    return (String.ofList handle, String.ofList suffix, c)
  else none

/-- Reads a number of a version, at most nine digits. -/
def readVersionNumber (c : Cursor) : Option (Nat × Cursor) :=
  let (digits, c) := c.readWhile Char.isDigit
  if digits.isEmpty || decide (9 < digits.length) then none
  else some (digits.foldl (fun n d => 10 * n + (d.toNat - '0'.toNat)) 0, c)

/-- Reads a directive with its line. -/
def readDirective (c : Cursor) : Option (TokenKind × Cursor) := do
  let (name, c) := c.skip.readWhile isWord
  if name.isEmpty || !c.breaksAt 0 then none
  else
    let c := c.skipWhile isGap
    let (kind, c) ←
      if name = "YAML".toList then do
        let (major, c) ← c.readVersionNumber
        if !c.sees '.' then none
        else
          let (minor, c) ← c.skip.readVersionNumber
          some (.versionDirective major minor, c)
      else if name = "TAG".toList then do
        let (handle, c) ← c.readHandle
        if !(handle == ['!'] || isNamedHandle handle) || !c.seesAny isGap then none
        else
          let c := c.skipWhile isGap
          let (start, c) ← readTagText true (c.rest.length + 1) c
          if start.isEmpty || !c.breaksAt 0 then none
          else some (.tagDirective (String.ofList handle) (String.ofList start), c)
      else none
    return (kind, ← c.finishLine)

end Cursor

namespace Scanner

/-! ## Blocks and keys -/

/-- Whether the scanner is inside a flow collection. -/
def inFlow (s : Scanner) : Bool := decide (1 < s.places.length)

/-- Adds a token from `start` to the cursor. -/
def emit (s : Scanner) (kind : TokenKind) (start : Mark) : Scanner :=
  { s with tokens := s.tokens.push ⟨kind, start, s.cursor.mark⟩ }

/-- Starts a block if `column` is to the right of the innermost one. Its token goes before the
`position`-th token if there is a position, else to the end. -/
def openBlock (s : Scanner) (column : Nat) (position : Option Nat) (kind : TokenKind)
    (mark : Mark) : Scanner :=
  if !s.inFlow && decide (s.indent < column) then
    let token : Token := ⟨kind, mark, mark⟩
    { s with
      indent := column
      outer := s.indent :: s.outer
      tokens := match position with
        | none => s.tokens.push token
        | some n => s.tokens.insertIdxIfInBounds n token }
  else s

/-- Ends the blocks whose column is right of `column`; `outer` holds the columns around. -/
def closeBlocks (column : Int) (mark : Mark) : Int → List Int → Array Token →
    Int × List Int × Array Token
  | indent, [], tokens => (indent, [], tokens)
  | indent, next :: outer, tokens =>
    if column < indent then
      closeBlocks column mark next outer (tokens.push ⟨.blockEnd, mark, mark⟩)
    else (indent, next :: outer, tokens)

/-- Ends the blocks that a token at this column lies outside of. -/
def unroll (s : Scanner) (column : Int) : Scanner :=
  if s.inFlow then s
  else
    let (indent, outer, tokens) := closeBlocks column s.cursor.mark s.indent s.outer s.tokens
    { s with indent, outer, tokens }

/-- Gives up the pending key place, which must not be required. -/
def dropPlace (s : Scanner) : Option Scanner :=
  match s.places with
  | [] => some s
  | place :: places =>
    if place.any KeyPlace.required then none else some { s with places := none :: places }

/-- Remembers that a key may start here. -/
def savePlace (s : Scanner) : Option Scanner :=
  if s.keyAllowed then do
    let required := !s.inFlow && decide (s.indent = s.cursor.mark.column)
    let place : KeyPlace := ⟨required, s.tokens.size, s.cursor.mark⟩
    let s ← s.dropPlace
    return { s with places := some place :: s.places.tail }
  else some s

/-- A key lies on one line and is at most 1024 characters long. -/
def isStale (here : Mark) (place : KeyPlace) : Bool :=
  decide (place.mark.line < here.line) || decide (place.mark.index + 1024 < here.index)

/-- Gives up the key places that the cursor has left behind; none of them must be required. -/
def dropStale (s : Scanner) : Option Scanner :=
  let stale (p : Option KeyPlace) : Bool := p.any (isStale s.cursor.mark)
  if s.places.any fun p => stale p && p.any KeyPlace.required then none
  else some { s with places := s.places.map fun p => if stale p then none else p }

/-! ## Between tokens -/

/-- Moves over blanks, comments and line ends. Tabs are no indentation. -/
def skipBlank : Nat → Scanner → Scanner
  | 0, s => s
  | fuel + 1, s =>
    let c := s.cursor.skipWhile fun x => x = ' ' || ((s.inFlow || !s.keyAllowed) && x = '\t')
    let c := c.skipComment
    if c.seesAny isLineEnd then
      skipBlank fuel
        { s with cursor := c.skipLineEnd, keyAllowed := s.keyAllowed || !s.inFlow }
    else { s with cursor := c }

/-! ## Tokens -/

/-- Adds a token of `n` characters. -/
def readMark (s : Scanner) (kind : TokenKind) (n : Nat) : Scanner :=
  { s with cursor := s.cursor.skipN n }.emit kind s.cursor.mark

/-- Ends all blocks before a token that stands outside them. -/
def leaveBlocks (s : Scanner) : Option Scanner := do
  let s ← (s.unroll (-1)).dropPlace
  return { s with keyAllowed := false }

def readFlowStart (s : Scanner) (kind : TokenKind) : Option Scanner := do
  let s ← s.savePlace
  return { s with places := none :: s.places, keyAllowed := true }.readMark kind 1

def readFlowEnd (s : Scanner) (kind : TokenKind) : Option Scanner := do
  let s ← s.dropPlace
  let places := if s.inFlow then s.places.tail else s.places
  return { s with places, keyAllowed := false }.readMark kind 1

def readFlowEntry (s : Scanner) : Option Scanner := do
  let s ← s.dropPlace
  return { s with keyAllowed := true }.readMark .flowEntry 1

def readBlockEntry (s : Scanner) : Option Scanner := do
  if !s.inFlow && !s.keyAllowed then none
  else
    let mark := s.cursor.mark
    let s ← (s.openBlock mark.column none .blockSequenceStart mark).dropPlace
    return { s with keyAllowed := true }.readMark .blockEntry 1

def readKey (s : Scanner) : Option Scanner := do
  if !s.inFlow && !s.keyAllowed then none
  else
    let mark := s.cursor.mark
    let s ← (s.openBlock mark.column none .blockMappingStart mark).dropPlace
    return { s with keyAllowed := !s.inFlow }.readMark .key 1

/-- Reads a colon. If a key place is pending, what stands there is a key. -/
def readValue (s : Scanner) : Option Scanner :=
  match s.places with
  | some place :: places =>
    let key : Token := ⟨.key, place.mark, place.mark⟩
    let s := { s with tokens := s.tokens.insertIdxIfInBounds place.tokens key }
    let s := s.openBlock place.mark.column (some place.tokens) .blockMappingStart place.mark
    some ({ s with places := none :: places, keyAllowed := false }.readMark .value 1)
  | _ =>
    if !s.inFlow && !s.keyAllowed then none
    else
      let mark := s.cursor.mark
      let s := s.openBlock mark.column none .blockMappingStart mark
      some ({ s with keyAllowed := !s.inFlow }.readMark .value 1)

/-- Adds a token that may be a key, or be part of one. -/
def readNodePart (s : Scanner) (read : Cursor → Option (TokenKind × Cursor)) :
    Option Scanner := do
  let s ← s.savePlace
  let start := s.cursor.mark
  let (kind, cursor) ← read s.cursor
  return { s with cursor, keyAllowed := false }.emit kind start

def readQuoted (s : Scanner) (quote : Char) (style : ScalarStyle) : Option Scanner :=
  s.readNodePart fun c => do
    let (text, c) ← Cursor.readQuoted quote (c.rest.length + 1) [] c.skip
    return (.scalar (String.ofList text) style, c)

def readPlain (s : Scanner) : Option Scanner := do
  let s ← s.savePlace
  let start := s.cursor.mark
  let (plain, cursor) ← Cursor.readPlain s.inFlow (s.indent + 1).toNat
    (s.cursor.rest.length + 1) ⟨[], start, false⟩ {} s.cursor
  let token : Token := ⟨.scalar (String.ofList plain.text) .plain, start, plain.stop⟩
  return { s with cursor, keyAllowed := plain.broken, tokens := s.tokens.push token }

def readBlock (s : Scanner) (style : ScalarStyle) : Option Scanner := do
  let s ← s.dropPlace
  let start := s.cursor.mark
  let (text, cursor) ← s.cursor.skip.readBlock (style == .literal) s.indent
  return { s with cursor, keyAllowed := true }.emit (.scalar (String.ofList text) style) start

/-- Whether a plain scalar may start here. -/
def startsPlain (s : Scanner) (x : Char) : Bool :=
  let c := s.cursor
  let dash := x = '-' && !(c.at? 1).any isGap
  let mark := !s.inFlow && (x = '?' || x = ':') && !c.breaksAt 1
  !(isGap x || isLineEnd x || "-?:,[]\x7b\x7d#&*!|>'\"%@`".toList.contains x) || dash || mark

/-- Reads the next token, which starts with `x`. -/
def readToken (s : Scanner) (x : Char) : Option Scanner :=
  let c := s.cursor
  let indicator := s.inFlow || c.breaksAt 1
  if c.mark.column = 0 && x = '%' then do
    let s ← s.leaveBlocks
    let (kind, cursor) ← c.readDirective
    return { s with cursor }.emit kind c.mark
  else if c.atDocumentMark '-' then return (← s.leaveBlocks).readMark .documentStart 3
  else if c.atDocumentMark '.' then return (← s.leaveBlocks).readMark .documentEnd 3
  else match x with
    | '[' => s.readFlowStart .flowSequenceStart
    | '\x7b' => s.readFlowStart .flowMappingStart
    | ']' => s.readFlowEnd .flowSequenceEnd
    | '\x7d' => s.readFlowEnd .flowMappingEnd
    | ',' => s.readFlowEntry
    | '*' => s.readNodePart fun c => do
      let (name, c) ← c.skip.readAnchor
      return (.alias name, c)
    | '&' => s.readNodePart fun c => do
      let (name, c) ← c.skip.readAnchor
      return (.anchor name, c)
    | '!' => s.readNodePart fun c => do
      let (handle, suffix, c) ← c.readTag s.inFlow
      return (.tag handle suffix, c)
    | '\'' => s.readQuoted '\'' .singleQuoted
    | '"' => s.readQuoted '"' .doubleQuoted
    | _ =>
      if x = '-' && c.breaksAt 1 then s.readBlockEntry
      else if x = '?' && indicator then s.readKey
      else if x = ':' && indicator then s.readValue
      else if x = '|' && !s.inFlow then s.readBlock .literal
      else if x = '>' && !s.inFlow then s.readBlock .folded
      else if s.startsPlain x then s.readPlain
      else none

/-- Ends the stream: the last line is ended, and then all blocks. -/
def finish (s : Scanner) : Option (Array Token) := do
  let mark := s.cursor.mark
  let mark := if mark.column = 0 then mark else { mark with line := mark.line + 1, column := 0 }
  let s ← { s with cursor := ⟨[], mark⟩ }.leaveBlocks
  return (s.emit .streamEnd mark).tokens

/-- Reads all tokens. -/
def run : Nat → Scanner → Option (Array Token)
  | 0, _ => none
  | fuel + 1, s => do
    let s ← (skipBlank (s.cursor.rest.length + 1) s).dropStale
    let s := s.unroll s.cursor.mark.column
    match s.cursor.rest.head? with
    | none => s.finish
    | some x => run fuel (← s.readToken x)

end Scanner

namespace Token

/-- The tokens of a document, if it can be read. -/
def ofText? (text : String) : Option (List Token) :=
  let cursor := Cursor.ofText text.toList
  if cursor.rest.all isAllowed then
    (Scanner.run (cursor.rest.length + 1) { cursor }).map Array.toList
  else none

end Token

end Easel.Yaml
