/-!
# Cursors

A cursor is a place in a document: the characters that follow, and the mark of the next one. Lines
end with a line feed, a carriage return, both in turn, or one of the three Unicode line ends.
-/

namespace Easel.Yaml

/-- A place in a document; everything counts from zero, columns in characters. -/
structure Mark where
  index : Nat := 0
  line : Nat := 0
  column : Nat := 0
  deriving DecidableEq, Repr, Inhabited

/-- A place in a document with the characters that follow it. -/
structure Cursor where
  rest : List Char
  mark : Mark := {}

/-! ## Classes of characters -/

def isLineEnd (c : Char) : Bool :=
  c = '\n' || c = '\r' || c = '\u0085' || c = '\u2028' || c = '\u2029'

def isGap (c : Char) : Bool := c = ' ' || c = '\t'

/-- Characters of anchors, directive names and tag handles. -/
def isWord (c : Char) : Bool := c.isAlphanum || c = '_' || c = '-'

/-- Characters that a document may hold. -/
def isAllowed (c : Char) : Bool :=
  let n := c.toNat
  c = '\t' || c = '\n' || c = '\r' || (0x20 ≤ n && n ≤ 0x7E) || n = 0x85 ||
    (0xA0 ≤ n && n ≤ 0xFFFD && n ≠ 0xFEFF) || 0x10000 ≤ n

namespace Cursor

/-- The start of a document, after its byte order mark. -/
def ofText (text : List Char) : Cursor :=
  match text with
  | '\uFEFF' :: text => { rest := text }
  | text => { rest := text }

/-- The character `n` places on. -/
def at? (c : Cursor) (n : Nat) : Option Char := c.rest[n]?

/-- Whether the next character is `x`. -/
def sees (c : Cursor) (x : Char) : Bool := c.rest.head? == some x

/-- Whether the next character is in a class. -/
def seesAny (c : Cursor) (p : Char → Bool) : Bool := c.rest.head?.any p

def atEnd (c : Cursor) : Bool := c.rest.isEmpty

/-- Whether a blank, a line end or the end of the document stands `n` places on. -/
def breaksAt (c : Cursor) (n : Nat) : Bool :=
  match c.at? n with
  | none => true
  | some x => isGap x || isLineEnd x

/-- Whether a line end or the end of the document is next. -/
def atLineEnd (c : Cursor) : Bool := c.rest.head?.all isLineEnd

/-- Moves over a character that ends no line. -/
def skip (c : Cursor) : Cursor :=
  match c.rest with
  | [] => c
  | _ :: rest => ⟨rest, { c.mark with index := c.mark.index + 1, column := c.mark.column + 1 }⟩

/-- Moves over `n` characters that end no line. -/
def skipN : Nat → Cursor → Cursor
  | 0, c => c
  | n + 1, c => skipN n c.skip

/-- Moves over a line end, and gives the character it stands for in text. -/
def readLineEnd (c : Cursor) : List Char × Cursor :=
  let next (n : Nat) : Mark := ⟨c.mark.index + n, c.mark.line + 1, 0⟩
  match c.rest with
  | '\r' :: '\n' :: rest => (['\n'], ⟨rest, next 2⟩)
  | x :: rest =>
    if x = '\u2028' || x = '\u2029' then ([x], ⟨rest, next 1⟩)
    else if isLineEnd x then (['\n'], ⟨rest, next 1⟩)
    else ([], c)
  | [] => ([], c)

/-- Moves over a line end. -/
def skipLineEnd (c : Cursor) : Cursor := c.readLineEnd.2

/-- Reads the characters of a class that come next; the class has no line ends. -/
def readWhile (p : Char → Bool) (c : Cursor) : List Char × Cursor :=
  let text := c.rest.takeWhile p
  let n := text.length
  (text, ⟨c.rest.drop n,
    { c.mark with index := c.mark.index + n, column := c.mark.column + n }⟩)

/-- Moves over the characters of a class that come next; the class has no line ends. -/
def skipWhile (p : Char → Bool) (c : Cursor) : Cursor := (c.readWhile p).2

/-- Moves over a comment, if one starts here, up to the end of the line. -/
def skipComment (c : Cursor) : Cursor :=
  if c.sees '#' then c.skipWhile (fun x => !isLineEnd x) else c

/-- Whether a line starts here with three characters `x` and then a blank or an end. -/
def atDocumentMark (c : Cursor) (x : Char) : Bool :=
  c.mark.column = 0 && c.at? 0 == some x && c.at? 1 == some x && c.at? 2 == some x && c.breaksAt 3

/-- Moves over blanks and a comment to the end of the line, which must come next. -/
def finishLine (c : Cursor) : Option Cursor :=
  let c := (c.skipWhile isGap).skipComment
  if c.atEnd then some c else if c.atLineEnd then some c.skipLineEnd else none

end Cursor

end Easel.Yaml
