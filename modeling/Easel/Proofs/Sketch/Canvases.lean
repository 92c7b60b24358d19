import Easel.Proofs.Script.Heaps
import Easel.Sketch.Run
import Mathlib.Data.List.Basic

/-!
# What canvases show

A canvas shows the same in all heaps that agree on its objects. Copies of what a canvas shows show
the same again, and they are new objects, so nothing that was there before can tell that they were
made.
-/

namespace Easel

namespace Heap

variable {h h' : Heap}

/-- What a canvas shows depends on its own objects only. -/
theorem shown_congr {canvas : List Shown}
    (hc : ∀ s ∈ canvas, h'.get? s.object = h.get? s.object) : h'.shown canvas = h.shown canvas := by
  unfold shown
  refine List.filterMap_congr fun s hs => ?_
  rw [hc s hs]

/-- Copies are made like all new objects. -/
theorem heap_allocShown (h : Heap) (xs : List (Object × Colour)) :
    (h.allocShown xs).2 = (h.allocAll (xs.map Prod.fst)).2 := by
  induction xs generalizing h with
  | nil => rfl
  | cons x xs ih => exact ih (h.alloc x.1).2

theorem objects_allocShown (h : Heap) (xs : List (Object × Colour)) :
    (h.allocShown xs).1.map Shown.object = (h.allocAll (xs.map Prod.fst)).1 := by
  induction xs generalizing h with
  | nil => rfl
  | cons x xs ih => exact congrArg ((h.alloc x.1).1 :: ·) (ih (h.alloc x.1).2)

/-- A canvas of copies shows what was copied. -/
theorem shown_allocShown (h : Heap) (xs : List (Object × Colour)) :
    (h.allocShown xs).2.shown (h.allocShown xs).1 = xs := by
  induction xs generalizing h with
  | nil => rfl
  | cons x xs ih =>
    obtain ⟨o, c⟩ := x
    have hnew : (h.alloc o).1.index < (h.alloc o).2.size := by
      rw [size_alloc]
      exact Nat.lt_succ_self h.size
    have hget : ((h.alloc o).2.allocShown xs).2.get? (h.alloc o).1 = some o := by
      rw [heap_allocShown, get?_allocAll_of_lt _ _ hnew, get?_alloc_self]
    simp only [shown] at ih
    simp only [allocShown, shown, List.filterMap_cons, hget, Option.map_some, ih]

end Heap

namespace Run

variable (snapshots : Snapshots) (index : Nat) (r : Run)

/-- What a snapshot copies if one is taken now: nothing if there is no frame to produce. -/
def copied : List (Object × Colour) :=
  match snapshots with
  | .keep => if r.machine.session.redrawPending then r.machine.shown else []
  | .skip => []

theorem heap_takeFrame :
    (takeFrame snapshots index r).machine.heap =
      (r.machine.heap.allocAll ((copied snapshots r).map Prod.fst)).2 := by
  unfold takeFrame copied
  cases snapshots <;> split
  · exact Heap.heap_allocShown _ _
  · rfl
  · rfl
  · rfl

@[simp] theorem session_takeFrame :
    (takeFrame snapshots index r).machine.session = r.machine.session.takeRedraw := by
  unfold takeFrame
  split
  · cases snapshots <;> rfl
  case isFalse h =>
    simp only [Bool.not_eq_true] at h
    simp only [Session.takeRedraw, ← h]

@[simp] theorem bindings_takeFrame : (takeFrame snapshots index r).bindings = r.bindings := by
  unfold takeFrame
  split
  · cases snapshots <;> rfl
  · rfl

theorem frames_takeFrame :
    (takeFrame snapshots index r).frames =
      r.frames + if r.machine.session.redrawPending then 1 else 0 := by
  unfold takeFrame
  split
  · cases snapshots <;> rfl
  · rfl

@[simp] theorem kept_takeFrame_skip : (takeFrame .skip index r).kept = r.kept := by
  unfold takeFrame
  split <;> rfl

theorem kept_takeFrame_keep (h : r.machine.session.redrawPending = true) :
    (takeFrame .keep index r).kept =
      r.kept.push ⟨r.frames, index, (r.machine.heap.allocShown r.machine.shown).1⟩ := by
  unfold takeFrame
  rw [if_pos h]
  rfl

/-- Where no redraw is pending, there is no frame. -/
theorem takeFrame_settled (h : r.machine.session.redrawPending = false) :
    takeFrame snapshots index r = r := by
  unfold takeFrame
  rw [if_neg (by simp [h])]

/-- A frame changes no object. -/
theorem evolves_takeFrame : r.machine.heap.Evolves (takeFrame snapshots index r).machine.heap := by
  rw [heap_takeFrame]
  exact .allocAll _ _

end Run

end Easel
