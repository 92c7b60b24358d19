import Easel.Yaml.Datum

/-!
# Typed reading

Readers take a value of some type from a node and say what is wrong if they cannot. A fault is
placed at the innermost collection or scalar that a reader was reading when it arose.
-/

namespace Easel.Yaml

/-! ## Faults -/

/-- The way from a collection to one of its parts. -/
inductive PathStep where
  | item (index : Nat)
  | entry (key : String)
  /-- An entry whose key is no scalar. -/
  | unnamed
  deriving DecidableEq, Repr

/-- The way from the root to a node, the last step first. -/
abbrev Path := List PathStep

/-- The path as text; the root is a single point. -/
def Path.text : Path → String
  | [] => "."
  | .item index :: path => text path ++ s!"[{index}]"
  | .entry key :: path => (if path.isEmpty then "" else text path ++ ".") ++ key
  | .unnamed :: path => (if path.isEmpty then "" else text path ++ ".") ++ "?"

/-- What stands in a document where something else is wanted. -/
inductive Found where
  | atom (a : Atom)
  | sequence
  | mapping

namespace Found

def text : Found → String
  | atom .null => "unit value"
  | atom (.bool b) => s!"boolean `{b}`"
  | atom (.int n) => s!"integer `{n}`"
  | atom (.float x) => "floating point `" ++ Notation.pointed.write x ++ "`"
  | atom (.text s) => "string " ++ Text.quoted s
  | sequence => "sequence"
  | mapping => "map"

end Found

/-- Why a reader cannot take its value. -/
inductive ReadReason where
  /-- The document holds no data here. -/
  | noData
  | wrongType (found : Found) (wanted : String)
  | tooLarge (n : Nat) (wanted : String)
  | missingField (name : String)
  | duplicateField (name : String)
  /-- A reason that a reader gives in its own words. -/
  | refused (words : String)

def ReadReason.text : ReadReason → String
  | noData => "no data"
  | wrongType found wanted => s!"invalid type: {found.text}, expected {wanted}"
  | tooLarge n wanted => s!"invalid value: integer `{n}`, expected {wanted}"
  | missingField name => s!"missing field `{name}`"
  | duplicateField name => s!"duplicate field `{name}`"
  | refused words => words

/-- A reason, with its path and its place in the text once they are known. -/
structure ReadFault where
  reason : ReadReason
  place : Option (Path × Mark) := none

namespace ReadFault

/-- The fault in words. The root's path and the very first place go without saying. -/
def message (f : ReadFault) : String :=
  match f.place with
  | none => f.reason.text
  | some (path, mark) =>
    let start := if path.text = "." then "" else path.text ++ ": "
    let place := if mark.line = 0 ∧ mark.column = 0 then ""
      else s!" at line {mark.line + 1} column {mark.column + 1}"
    start ++ f.reason.text ++ place

end ReadFault

/-! ## Readers -/

/-- Reading within a budget of aliases. -/
abbrev Reading := StateT Nat (Except ReadFault)

/-- A node on the way through a document. -/
structure Spot where
  document : Document
  node : Node
  path : Path := []
  /-- How many collections may still be entered. -/
  depth : Nat := Document.maxDepth

/-- Takes a value from a node. -/
abbrev Reader (α : Type) := Spot → Reading α

def Reading.fail {α : Type} (reason : ReadReason) : Reading α := throw { reason }

namespace Spot

/-- The spot of a part. -/
def part (s : Spot) (step : PathStep) (node : Node) (depth : Nat) : Spot :=
  { s with path := step :: s.path, node, depth }

/-- Follows an alias. -/
def resolve (s : Spot) : Reading Spot := fun left =>
  match s.document.resolve s.node left with
  | some (node, left) => .ok ({ s with node }, left)
  | none => .error { reason := .noData }

/-- Places faults here that have no place yet. -/
def placing {α : Type} (s : Spot) (r : Reading α) : Reading α :=
  tryCatch r fun f => throw { f with place := f.place.or (some (s.path, s.node.mark)) }

/-- Fails because of what is found here. -/
def wrongType {α : Type} (s : Spot) (wanted : String) : Reading α :=
  match s.node with
  | .scalar _ tag text style => match Atom.ofScalar? tag style text with
    | some a => Reading.fail (.wrongType (.atom a) wanted)
    | none => Reading.fail .noData
  | .sequence _ _ _ => Reading.fail (.wrongType .sequence wanted)
  | .mapping _ _ _ => Reading.fail (.wrongType .mapping wanted)
  | .alias _ => Reading.fail .noData

/-- Whether there is nothing here. -/
def isAbsent (s : Spot) : Bool :=
  match s.node with
  | .scalar _ _ "" .plain => true
  | _ => false

end Spot

namespace Reader

/-- Reads a node that is no alias; faults are placed at it. -/
def resolved {α : Type} (r : Reader α) : Reader α := fun s => do
  let s ← s.resolve
  s.placing (r s)

/-- The text of a scalar, however it is written. -/
def text (wanted : String) : Reader String :=
  resolved fun s => match s.node with
    | .scalar _ _ text _ => return text
    | _ => s.wrongType wanted

/-- The whole number that a text without minus sign spells. -/
def unsigned? (s : String) : Option Nat :=
  match s.toList with
  | '-' :: _ => none
  | cs => (Atom.int? cs).map Int.toNat

/-- Whether a scalar written like this may be read as a number. -/
def mayBeNumber (tag : Option String) (style : ScalarStyle) : Bool :=
  style = .plain || (style = .literal && tag = some (Atom.standardTag "int"))

/-- A whole number below `bound`. -/
def natural (bound : Nat) (wanted : String) : Reader Nat :=
  resolved fun s => match s.node with
    | .scalar _ tag text style =>
      match if mayBeNumber tag style then unsigned? text else none with
      | some n =>
        if n < bound then return n
        else if n < Word.values 64 then Reading.fail (.tooLarge n wanted)
        else s.wrongType wanted
      | none => s.wrongType wanted
    | _ => s.wrongType wanted

/-- A value, or none for nothing and for null. -/
def optional {α : Type} (r : Reader α) : Reader (Option α) := fun s => do
  let s ← s.resolve
  match s.node with
  | .scalar _ tag text .plain =>
    if tag = some (Atom.standardTag "null") then
      if Atom.isNull text then return none else s.placing (Reading.fail .noData)
    else if tag.isNone && (text.isEmpty || Atom.isNull text) then return none
    else some <$> r s
  | _ => some <$> r s

/-- The items of a sequence; nothing counts as a sequence without items. -/
def list {α : Type} (item : Reader α) : Reader (List α) :=
  resolved fun s => match s.node, s.depth with
    | .sequence _ _ _, 0 => Reading.fail .noData
    | .sequence _ _ items, depth + 1 =>
      items.zipIdx.mapM fun (node, index) => item (s.part (.item index) node depth)
    | _, _ => if s.isAbsent then return [] else s.wrongType "a sequence"

/-- Data of any form. -/
def datum : Reader Datum := fun s left =>
  match s.document.readNode s.depth s.node left with
  | some result => .ok result
  | none => .error { reason := .noData }

end Reader

/-- A field of a record whose fields are gathered in a draft. -/
structure FieldReader (σ : Type) where
  name : String
  /-- Whether the draft has the field already. -/
  isSet : σ → Bool
  /-- Adds the field to the draft. -/
  read : σ → Reader σ

namespace Reader

variable {σ α : Type}

/-- The step to the value of a key. -/
def entryStep : Node → PathStep
  | .scalar _ _ text _ => .entry text
  | _ => .unnamed

/-- Gathers fields from the entries of a mapping. Each field may come once; other entries are
passed over. -/
def gather (fields : List (FieldReader σ)) (s : Spot) (depth : Nat) :
    σ → List (Node × Node) → Reading σ
  | draft, [] => return draft
  | draft, (k, v) :: rest => do
    let key ← text "field identifier" { s with node := k, depth }
    match fields.find? fun f => f.name == key with
    | none => gather fields s depth draft rest
    | some f =>
      if f.isSet draft then Reading.fail (.duplicateField f.name)
      else
        let draft ← f.read draft (s.part (entryStep k) v depth)
        gather fields s depth draft rest

/-- A record. Nothing counts as a record without fields. -/
def record (wanted : String) (fields : List (FieldReader σ)) (start : σ)
    (finish : σ → Except ReadReason α) : Reader α :=
  resolved fun s => do
    let draft ← match s.node, s.depth with
      | .mapping _ _ _, 0 => Reading.fail .noData
      | .mapping _ _ entries, depth + 1 => gather fields s depth start entries
      | _, _ => if s.isAbsent then pure start else s.wrongType wanted
    match finish draft with
    | .ok a => return a
    | .error reason => Reading.fail reason

end Reader

end Easel.Yaml
