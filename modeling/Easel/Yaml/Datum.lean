import Easel.Yaml.Atom
import Easel.Yaml.Node

/-!
# Data

The plain data that a document holds: aliases are replaced by what they stand for, scalars by their
values. Not every document holds data: keys of a mapping must differ, a local tag must have a name,
and there are limits to nesting and to the number of aliases followed.
-/

namespace Easel.Yaml

inductive Datum where
  | atom (a : Atom)
  | sequence (items : List Datum)
  /-- The entries in the order they are written. -/
  | mapping (entries : List (Datum × Datum))
  /-- Data under a local tag. -/
  | tagged (name : String) (content : Datum)
  deriving Inhabited

namespace Datum

/-! ## Comparison -/

/-- The name of a tag without the exclamation mark that it may start with. -/
def tagName (name : String) : List Char :=
  match name.toList with
  | '!' :: c :: cs => c :: cs
  | cs => cs

mutual

/-- Whether two data are the same; the order of a mapping's entries does not matter. -/
def same : Datum → Datum → Bool
  | atom a, atom b => a.same b
  | sequence xs, sequence ys => sameItems xs ys
  | mapping xs, mapping ys => xs.length == ys.length && amongEntries xs ys
  | tagged s x, tagged t y => tagName s == tagName t && same x y
  | _, _ => false

def sameItems : List Datum → List Datum → Bool
  | [], [] => true
  | x :: xs, y :: ys => same x y && sameItems xs ys
  | _, _ => false

/-- Whether each entry of the first mapping is one of the second. -/
def amongEntries : List (Datum × Datum) → List (Datum × Datum) → Bool
  | [], _ => true
  | (k, v) :: rest, ys => (ys.any fun e => same k e.1 && same v e.2) && amongEntries rest ys

end

/-! ## Text -/

mutual

/-- The datum with all types, as error messages show it. -/
def print : Datum → String
  | atom a => a.print
  | sequence items => "Sequence [" ++ ", ".intercalate (printItems items) ++ "]"
  | mapping entries => "Mapping \x7b" ++ ", ".intercalate (printEntries entries) ++ "\x7d"
  | tagged name content =>
    "TaggedValue \x7b tag: !" ++ String.ofList (tagName name) ++ ", value: " ++ print content ++
      " \x7d"

def printItems : List Datum → List String
  | [] => []
  | x :: xs => print x :: printItems xs

/-- The entries; a key that is a scalar stands without its type. -/
def printEntries : List (Datum × Datum) → List String
  | [] => []
  | (atom a, v) :: rest => (a.printKey ++ ": " ++ print v) :: printEntries rest
  | (k, v) :: rest => (print k ++ ": " ++ print v) :: printEntries rest

end

end Datum

namespace Document

/-! ## Aliases -/

/-- How many aliases may be followed in reading a document. -/
def aliasLimit (d : Document) : Nat := 100 * d.size

/-- How deeply collections may be nested, those that aliases stand for included. -/
def maxDepth : Nat := 128

/-- The node that an alias stands for, or the node itself. `left` counts the aliases that may still
be followed. -/
def resolve (d : Document) (n : Node) (left : Nat) : Option (Node × Nat) :=
  match n with
  | .alias anchor =>
    if left = 0 then none else (d.anchors.lookup anchor).map fun node => (node, left - 1)
  | node => some (node, left)

/-! ## Reading -/

/-- The name of a local tag. -/
def localTag? (tag : Option String) : Option String :=
  match tag.map String.toList with
  | some ('!' :: name) => some (String.ofList name)
  | _ => none

/-- Puts the datum under the tag, which must not be empty. -/
def underTag (tag : Option String) (content : Datum) : Option Datum :=
  match localTag? tag with
  | some name => if name.isEmpty then none else some (.tagged name content)
  | none => some content

/-- Reads data with a budget of aliases. -/
abbrev DataReader := StateT Nat Option

/-- The entries of a mapping, whose keys must differ; `seen` holds the entries so far, the last one
first. -/
def readEntries (read : Node → DataReader Datum) (seen : List (Datum × Datum)) :
    List (Node × Node) → DataReader (List (Datum × Datum))
  | [] => return seen.reverse
  | (k, v) :: rest => do
    let key ← read k
    if seen.any fun e => e.1.same key then failure
    else
      let value ← read v
      readEntries read ((key, value) :: seen) rest

/-- The datum of a node, `depth` collections deep at most. -/
def readNode (d : Document) : Nat → Node → DataReader Datum
  | depth, n => do
    let node ← (fun left => d.resolve n left : DataReader Node)
    match node, depth with
    | .scalar _ tag text style, _ =>
      let tag' := if (localTag? tag).isSome then none else tag
      StateT.lift ((Atom.ofScalar? tag' style text).bind fun a => underTag tag (.atom a))
    | .sequence _ tag items, depth + 1 => do
      let items ← items.mapM (readNode d depth)
      StateT.lift (underTag tag (.sequence items))
    | .mapping _ tag entries, depth + 1 => do
      let entries ← readEntries (readNode d depth) [] entries
      StateT.lift (underTag tag (.mapping entries))
    | _, _ => failure

/-- The data that the document holds, if it holds data. -/
def data? (d : Document) : Option Datum :=
  ((d.readNode maxDepth d.root).run d.aliasLimit).map (·.1)

end Document

end Easel.Yaml
