import Easel.Text.Digit
import Easel.Yaml.Token.Basic

/-!
# Reading scalars

Line ends inside plain and quoted scalars fold: one becomes a space, and of several the first is
dropped. Block scalars keep or fold the line ends between lines of their indentation.
-/

namespace Easel.Yaml

namespace Cursor

/-! ## Line folding -/

/-- Blanks and line ends between two words of a scalar. -/
structure Gap where
  /-- Blanks before the first line end. -/
  blanks : List Char := []
  /-- The first line end. -/
  first : List Char := []
  /-- The line ends after the first. -/
  later : List Char := []
  /-- Whether a line end was passed. -/
  broken : Bool := false

/-- What the gap becomes in the text. -/
def Gap.text (g : Gap) : List Char :=
  if g.broken then
    if g.first.head? = some '\n' then if g.later.isEmpty then [' '] else g.later
    else g.first ++ g.later
  else g.blanks

/-- Reads blanks and line ends. After a line end, a tab left of column `indent` is refused. -/
def readGap (indent : Nat) : Nat → Gap → Cursor → Option (Gap × Cursor)
  | 0, g, c => some (g, c)
  | fuel + 1, g, c =>
    match c.rest with
    | [] => some (g, c)
    | x :: _ =>
      if isGap x then
        if g.broken then
          if x = '\t' && decide (c.mark.column < indent) then none
          else readGap indent fuel g c.skip
        else readGap indent fuel { g with blanks := g.blanks ++ [x] } c.skip
      else if isLineEnd x then
        let (text, c) := c.readLineEnd
        if g.broken then readGap indent fuel { g with later := g.later ++ text } c
        else readGap indent fuel { first := text, broken := true } c
      else some (g, c)

/-! ## Quoted scalars -/

/-- The character of an escape that is named by one character. -/
def namedEscape? : Char → Option Char
  | '0' => some '\x00'
  | 'a' => some '\x07'
  | 'b' => some '\x08'
  | 't' => some '\t'
  | '\t' => some '\t'
  | 'n' => some '\n'
  | 'v' => some '\x0b'
  | 'f' => some '\x0c'
  | 'r' => some '\r'
  | 'e' => some '\x1b'
  | ' ' => some ' '
  | '"' => some '"'
  | '/' => some '/'
  | '\\' => some '\\'
  | 'N' => some '\u0085'
  | '_' => some '\u00a0'
  | 'L' => some '\u2028'
  | 'P' => some '\u2029'
  | _ => none

/-- The number of digits of an escape that spells a code point. -/
def escapeWidth? : Char → Option Nat
  | 'x' => some 2
  | 'u' => some 4
  | 'U' => some 8
  | _ => none

/-- Reads an escape after its backslash. -/
def readEscape (c : Cursor) : Option (Char × Cursor) := do
  let x ← c.at? 0
  match namedEscape? x with
  | some y => return (y, c.skip)
  | none =>
    let width ← escapeWidth? x
    let digits := (c.rest.drop 1).take width
    if digits.length < width then none
    else
      let n ← Text.natural? 16 digits
      if h : n.isValidChar then return (Char.ofNatAux n h, c.skipN (width + 1)) else none

/-- Reads a quoted scalar up to a gap, a line end escaped by a backslash, or the closing quote. The
result also tells whether it was such a line end. -/
def readQuotedWord (quote : Char) : Nat → Cursor → Option (List Char × Bool × Cursor)
  | 0, _ => none
  | fuel + 1, c =>
    let continued (x : Char) (c : Cursor) : Option (List Char × Bool × Cursor) := do
      let (text, escapedEnd, c) ← readQuotedWord quote fuel c
      return (x :: text, escapedEnd, c)
    match c.rest with
    | [] => some ([], false, c)
    | x :: rest =>
      if isGap x || isLineEnd x then some ([], false, c)
      else if quote = '\'' && x = '\'' && rest.head? == some '\'' then continued '\'' (c.skipN 2)
      else if x = quote then some ([], false, c)
      else if quote = '"' && x = '\\' then
        if rest.head?.any isLineEnd then some ([], true, c.skip.skipLineEnd)
        else do
          let (y, c) ← c.skip.readEscape
          continued y c
      else continued x c.skip

/-- Reads a quoted scalar after its opening quote, and the closing quote. -/
def readQuoted (quote : Char) : Nat → List Char → Cursor → Option (List Char × Cursor)
  | 0, _, _ => none
  | fuel + 1, text, c =>
    if c.atDocumentMark '-' || c.atDocumentMark '.' || c.atEnd then none
    else do
      let (word, escapedEnd, c) ← readQuotedWord quote (c.rest.length + 1) c
      let text := text ++ word
      if c.sees quote then return (text, c.skip)
      else
        let (gap, c) ← readGap 0 (c.rest.length + 1) { broken := escapedEnd } c
        readQuoted quote fuel (text ++ gap.text) c

/-! ## Plain scalars -/

/-- Whether a plain scalar ends before the next character; none if that character is an error. -/
def plainEnds (flow : Bool) (c : Cursor) : Option Bool :=
  match c.rest with
  | [] => some true
  | x :: rest =>
    if isGap x || isLineEnd x then some true
    else if flow && x = ':' && rest.head?.any (",?[]\x7b\x7d".toList.contains ·) then none
    else some ((x = ':' && c.breaksAt 1) || (flow && ",[]\x7b\x7d".toList.contains x))

/-- Reads a word of a plain scalar. -/
def readPlainWord (flow : Bool) : Nat → Cursor → Option (List Char × Cursor)
  | 0, _ => none
  | fuel + 1, c => do
    if ← c.plainEnds flow then return ([], c)
    else match c.rest with
      | [] => return ([], c)
      | x :: _ =>
        let (word, c) ← readPlainWord flow fuel c.skip
        return (x :: word, c)

/-- A plain scalar that has been read. -/
structure Plain where
  text : List Char
  /-- Where the text ends, before the gap behind it. -/
  stop : Mark
  /-- Whether a line ended in the gap behind the text. -/
  broken : Bool

/-- Reads the rest of a plain scalar behind a gap; outside flow collections its lines are indented
to `indent`. -/
def readPlain (flow : Bool) (indent : Nat) : Nat → Plain → Gap → Cursor →
    Option (Plain × Cursor)
  | 0, _, _, _ => none
  | fuel + 1, p, gap, c =>
    if c.atDocumentMark '-' || c.atDocumentMark '.' || c.sees '#' then some (p, c)
    else do
      let (word, c) ← readPlainWord flow (c.rest.length + 1) c
      if word.isEmpty then return (p, c)
      else
        let p : Plain := ⟨p.text ++ gap.text ++ word, c.mark, false⟩
        let (gap, c) ← readGap indent (c.rest.length + 1) {} c
        let p := { p with broken := gap.broken }
        if !flow && decide (c.mark.column < indent) then return (p, c)
        else readPlain flow indent fuel p gap c

/-! ## Block scalars -/

/-- What happens to the line ends at the end of a block scalar. -/
inductive Chomping where
  | strip
  | clip
  | keep
  deriving DecidableEq, Repr

/-- The indicators behind `|` or `>`. -/
structure BlockHeader where
  chomping : Chomping := .clip
  /-- Indentation relative to the block around, if it is given. -/
  increment : Option Nat := none

def chomping? : Char → Option Chomping
  | '+' => some .keep
  | '-' => some .strip
  | _ => none

/-- Reads the indentation indicator, a digit that is not zero. -/
def readIncrement (c : Cursor) : Option (Option Nat × Cursor) :=
  match c.rest with
  | x :: _ =>
    if x.isDigit then
      if x = '0' then none else some (some (x.toNat - '0'.toNat), c.skip)
    else some (none, c)
  | [] => some (none, c)

/-- Reads the indicators of a block scalar, in either order. -/
def readBlockHeader (c : Cursor) : Option (BlockHeader × Cursor) :=
  match (c.at? 0).bind chomping? with
  | some chomping => do
    let (increment, c) ← c.skip.readIncrement
    return ({ chomping, increment }, c)
  | none => do
    let (increment, c) ← c.readIncrement
    match increment, (c.at? 0).bind chomping? with
    | some _, some chomping => return ({ chomping, increment }, c.skip)
    | _, _ => return ({ increment }, c)

/-- Reads indentation and empty lines. With no indentation known (`none`) all spaces are passed.
Gives the line ends, and the greatest column reached. -/
def readEmptyLines (indent : Option Nat) : Nat → List Char → Nat → Cursor →
    Option (List Char × Nat × Cursor)
  | 0, _, _, _ => none
  | fuel + 1, breaks, widest, c =>
    let wanted := match indent with
      | none => (c.rest.takeWhile (· = ' ')).length
      | some n => min (n - c.mark.column) (c.rest.takeWhile (· = ' ')).length
    let c := c.skipN wanted
    let widest := max widest c.mark.column
    let short := match indent with
      | none => true
      | some n => decide (c.mark.column < n)
    if short && c.sees '\t' then none
    else if c.seesAny isLineEnd then
      let (text, c) := c.readLineEnd
      readEmptyLines indent fuel (breaks ++ text) widest c
    else some (breaks, widest, c)

/-- A block scalar being read. -/
structure Block where
  text : List Char := []
  /-- The end of the last line. -/
  lineEnd : List Char := []
  /-- The empty lines after it. -/
  empty : List Char
  /-- Whether the last line started with a blank. -/
  leadingBlank : Bool := false

/-- Reads the lines of a block scalar that are indented to `indent`. -/
def readBlockLines (literal : Bool) (indent : Nat) : Nat → Block → Cursor →
    Option (Block × Cursor)
  | 0, _, _ => none
  | fuel + 1, b, c =>
    if c.mark.column = indent && !c.atEnd then do
      let blank := c.seesAny isGap
      let joint :=
        if !literal && b.lineEnd.head? == some '\n' && !b.leadingBlank && !blank then
          if b.empty.isEmpty then [' '] else []
        else b.lineEnd
      let (line, c) := c.readWhile fun x => !isLineEnd x
      let (lineEnd, c) := c.readLineEnd
      let (empty, _, c) ← readEmptyLines (some indent) (c.rest.length + 1) [] 0 c
      readBlockLines literal indent fuel
        { text := b.text ++ joint ++ b.empty ++ line, lineEnd, empty, leadingBlank := blank } c
    else some (b, c)

/-- Reads a block scalar after its indicator; `around` is the indentation of the block around it,
`-1` outside all blocks. -/
def readBlock (literal : Bool) (around : Int) (c : Cursor) : Option (List Char × Cursor) := do
  let (header, c) ← c.readBlockHeader
  let c ← c.finishLine
  let given := header.increment.map fun n => if around ≥ 0 then around.toNat + n else n
  let (empty, widest, c) ← readEmptyLines given (c.rest.length + 1) [] 0 c
  let indent := given.getD (max (max widest (around + 1).toNat) 1)
  let (b, c) ← readBlockLines literal indent (c.rest.length + 1) { empty } c
  let tail := match header.chomping with
    | .strip => []
    | .clip => b.lineEnd
    | .keep => b.lineEnd ++ b.empty
  return (b.text ++ tail, c)

end Cursor

end Easel.Yaml
