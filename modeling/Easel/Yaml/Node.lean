import Easel.Yaml.Event

/-!
# Nodes

A document as a tree. An alias refers to an anchored node by the number of its anchor; it may stand
inside the very node it refers to.
-/

namespace Easel.Yaml

/-- A node, with the place where it starts. -/
inductive Node where
  | scalar (mark : Mark) (tag : Option String) (text : String) (style : ScalarStyle)
  | sequence (mark : Mark) (tag : Option String) (items : List Node)
  | mapping (mark : Mark) (tag : Option String) (entries : List (Node × Node))
  /-- Stands for the node anchored under this number. -/
  | alias (anchor : Nat)
  deriving Inhabited

namespace Node

/-- Where the node starts; an alias has no place of its own. -/
def mark : Node → Mark
  | scalar mark _ _ _ => mark
  | sequence mark _ _ => mark
  | mapping mark _ _ => mark
  | .alias _ => {}

end Node

/-- A document. -/
structure Document where
  root : Node
  /-- Anchored nodes by number. -/
  anchors : List (Nat × Node)
  /-- The number of events in it. -/
  size : Nat

/-! ## Anchors -/

/-- The anchors met so far. An anchor gets the number of distinct names before it, so a name that
is used again may share its number with another one; the node met last has the number. -/
structure AnchorTable where
  /-- The number each name has now. -/
  names : List (String × Nat) := []
  /-- For each number, the place of the event that starts its node; the last one first. -/
  starts : List (Nat × Nat) := []

namespace AnchorTable

/-- Adds a name for the node that starts with the event at `place`. -/
def add (t : AnchorTable) (name : String) (place : Nat) : AnchorTable :=
  let number := t.names.length
  { names := (name, number) :: t.names.filter fun n => n.1 != name
    starts := (number, place) :: t.starts }

end AnchorTable

/-! ## Trees -/

/-- A collection that has started and not ended. -/
structure OpenNode where
  /-- The place of the event that starts it. -/
  place : Nat
  isSequence : Bool
  mark : Mark
  tag : Option String
  /-- What it holds so far, the last node first. -/
  parts : List Node := []

namespace OpenNode

/-- The nodes in twos. -/
def entries : List Node → List (Node × Node)
  | k :: v :: rest => (k, v) :: entries rest
  | _ => []

/-- The collection that ends here. -/
def close (o : OpenNode) : Node :=
  if o.isSequence then .sequence o.mark o.tag o.parts.reverse
  else .mapping o.mark o.tag (entries o.parts.reverse)

end OpenNode

/-- The state of building a tree. -/
structure TreeBuilder where
  /-- The number of events so far. -/
  size : Nat := 0
  table : AnchorTable := {}
  /-- The collections around, innermost first. -/
  around : List OpenNode := []
  /-- The finished nodes by the place where they start. -/
  finished : List (Nat × Node) := []
  root : Option Node := none

namespace TreeBuilder

/-- Puts a finished node, which starts at `place`, into the collection around. -/
def add (b : TreeBuilder) (place : Nat) (anchored : Bool) (node : Node) : TreeBuilder :=
  let b := if anchored then { b with finished := (place, node) :: b.finished } else b
  match b.around with
  | [] => { b with root := some node }
  | o :: around => { b with around := { o with parts := node :: o.parts } :: around }

/-- Takes an event. -/
def take (b : TreeBuilder) (e : Event) : Option TreeBuilder :=
  let place := b.size
  let table := match e.anchor with
    | some name => b.table.add name place
    | none => b.table
  let b := { b with size := place + 1, table }
  match e.kind with
  | .scalar text style => some (b.add place e.anchor.isSome (.scalar e.mark e.tag text style))
  | .alias name => (b.table.names.lookup name).map fun number => b.add place false (.alias number)
  | .sequenceStart => some { b with around := ⟨place, true, e.mark, e.tag, []⟩ :: b.around }
  | .mappingStart => some { b with around := ⟨place, false, e.mark, e.tag, []⟩ :: b.around }
  | .sequenceEnd | .mappingEnd =>
    match b.around with
    | [] => none
    | o :: around =>
      let anchored := b.table.starts.any fun s => s.2 == o.place
      some ({ b with around }.add o.place anchored o.close)

/-- The node that each number has in the end. -/
def anchors (b : TreeBuilder) : List (Nat × Node) :=
  b.table.starts.filterMap fun (number, place) =>
    (b.finished.lookup place).map fun node => (number, node)

end TreeBuilder

namespace Document

/-- The document of these events. -/
def ofEvents? (events : List Event) : Option Document := do
  let b ← events.foldlM TreeBuilder.take {}
  return ⟨← b.root, b.anchors, b.size⟩

/-- The document that a text spells. -/
def ofText? (text : String) : Option Document := do
  let tokens ← Token.ofText? text
  let events ← Event.ofTokens? tokens
  ofEvents? events

end Document

end Easel.Yaml
