import Easel.Geometry.Gasket
import Easel.Geometry.Hexagons
import Easel.Geometry.Labelled
import Easel.Geometry.Sierpinski
import Easel.Script.ValueType

/-!
# Objects and the heap

Objects live in a heap and are known by reference, so that every holder of a reference sees an
object grow. Objects are never freed and a reference stays valid.
-/

namespace Easel

/-- What scripts make and draw. -/
inductive Object where
  | apollonian (gasket : Gasket Float)
  | sierpinski (fractal : Sierpinski Float)
  | hexagons (tiling : Hexagons Float)
  | point (point : LabelledPoint Float)
  | circle (circle : LabelledCircle Float)

namespace Object

/-- The class of an object. -/
def kind : Object → ObjectClass
  | apollonian _ => .apollonian
  | sierpinski _ => .sierpinski
  | hexagons _ => .hexagons
  | point _ => .point
  | circle _ => .circle

end Object

/-- A reference to an object of the heap. -/
structure ObjectRef where
  index : Nat
  deriving DecidableEq, Repr

/-- The objects made so far, in order. -/
structure Heap where
  objects : Array Object := #[]

namespace Heap

def size (h : Heap) : Nat := h.objects.size

/-- The object a reference stands for. -/
def get? (h : Heap) (r : ObjectRef) : Option Object := h.objects[r.index]?

/-- Makes a new object. -/
def alloc (h : Heap) (o : Object) : ObjectRef × Heap := (⟨h.size⟩, ⟨h.objects.push o⟩)

/-- Changes the object a reference stands for. -/
def set (h : Heap) (r : ObjectRef) (o : Object) : Heap := ⟨h.objects.setIfInBounds r.index o⟩

@[simp] theorem size_alloc (h : Heap) (o : Object) : (h.alloc o).2.size = h.size + 1 := by
  simp [alloc, size]

@[simp] theorem size_set (h : Heap) (r : ObjectRef) (o : Object) : (h.set r o).size = h.size := by
  simp [set, size]

@[simp] theorem get?_alloc_self (h : Heap) (o : Object) :
    (h.alloc o).2.get? (h.alloc o).1 = some o := by
  simp [alloc, get?, size]

/-- Making an object leaves the others alone. -/
theorem get?_alloc_of_lt (h : Heap) (o : Object) {r : ObjectRef} (hr : r.index < h.size) :
    (h.alloc o).2.get? r = h.get? r := by
  simp only [alloc, get?, size] at *
  grind

theorem get?_set_self (h : Heap) (o : Object) {r : ObjectRef} (hr : r.index < h.size) :
    (h.set r o).get? r = some o := by
  simp only [set, get?, size] at *
  grind

/-- Changing an object leaves the others alone. -/
theorem get?_set_of_ne (h : Heap) (o : Object) {r q : ObjectRef} (hrq : r ≠ q) :
    (h.set r o).get? q = h.get? q := by
  have : r.index ≠ q.index := fun e => hrq (by cases r; cases q; simp_all)
  simp only [set, get?]
  grind

end Heap

end Easel
