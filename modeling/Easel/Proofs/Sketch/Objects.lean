import Easel.Proofs.Sketch.Course

/-!
# The objects of a run

A script holds only objects that natives have made, as they were made or grown from there, and so
do the snapshots of its run. What is true of objects when they are made and stays true when they
grow is therefore true of every object of every run.
-/

namespace Easel

/-- What natives can come to make: an object as it is made, or what one grows into. -/
inductive Object.Made : Object → Prop where
  | fresh {o : Object} (fresh : o.Fresh) : Made o
  | grown {name : String} {o o' : Object} (made : Made o) (grows : o.Grows name o') : Made o'

/-- All objects of the heap are as natives make them. -/
def Heap.Genuine (h : Heap) : Prop := ∀ q o, h.get? q = some o → o.Made

namespace Heap.Genuine

variable {h : Heap}

theorem alloc (hh : h.Genuine) {o : Object} (ho : o.Made) : (h.alloc o).2.Genuine := by
  intro q p hq
  by_cases hnew : q = (h.alloc o).1
  · rw [hnew, get?_alloc_self] at hq
    cases hq
    exact ho
  · rw [get?_alloc_of_ne h o hnew] at hq
    exact hh q p hq

theorem allocAll (hh : h.Genuine) {os : List Object} (hos : ∀ o ∈ os, o.Made) :
    (h.allocAll os).2.Genuine := by
  induction os generalizing h with
  | nil => exact hh
  | cons o os ih =>
    exact ih (hh.alloc (hos o List.mem_cons_self)) fun p hp => hos p (List.mem_cons_of_mem o hp)

theorem set (hh : h.Genuine) (q : ObjectRef) {o : Object} (ho : o.Made) : (h.set q o).Genuine := by
  intro p o' hp
  by_cases hqp : q = p
  · subst hqp
    have hlt : q.index < h.size := by
      rw [← size_set h q o]
      exact get?_eq_some_lt hp
    rw [get?_set_self h o hlt] at hp
    cases hp
    exact ho
  · rw [get?_set_of_ne h o hqp] at hp
    exact hh p o' hp

/-- A canvas shows genuine objects. -/
theorem shown (hh : h.Genuine) (canvas : List Shown) : ∀ s ∈ h.shown canvas, s.1.Made := by
  intro s hs
  obtain ⟨entry, -, hentry⟩ := List.mem_filterMap.1 hs
  obtain ⟨o, ho, rfl⟩ := Option.map_eq_some_iff.1 hentry
  exact hh entry.object o ho

end Heap.Genuine

namespace Run

variable {snapshots : Snapshots} {index : Nat} {name : String} {args : List Value} {r r' : Run}
  {answer : Option Value} {log : List Call}

/-- A snapshot copies genuine objects. -/
theorem genuine_takeFrame (h : r.machine.heap.Genuine) (snapshots : Snapshots) (index : Nat) :
    (takeFrame snapshots index r).machine.heap.Genuine := by
  rw [heap_takeFrame]
  refine h.allocAll fun o ho => ?_
  obtain ⟨s, hs, rfl⟩ := List.mem_map.1 ho
  cases snapshots with
  | skip => cases hs
  | keep =>
    rw [copied] at hs
    split at hs
    · exact h.shown r.machine.session.canvas.toList s hs
    · cases hs

/-- **A call makes genuine objects of genuine ones.** -/
theorem Called.genuine (hc : Called snapshots index name args r answer r')
    (h : r.machine.heap.Genuine) : r'.machine.heap.Genuine := by
  cases hc with
  | quiet os _ _ _ hfresh => exact h.allocAll fun o ho => .fresh (hfresh o ho)
  | draw =>
    refine genuine_takeFrame ?_ snapshots index
    exact h
  | @grow q o₀ o _ _ _ ho hgrows =>
    refine genuine_takeFrame ?_ snapshots index
    exact h.set q (.grown (h q o₀ ho) hgrows)

theorem Course.genuine (h : Course snapshots r log r') (hr : r.Tidy)
    (hheap : r.machine.heap.Genuine) : r'.machine.heap.Genuine :=
  h.induct (P := fun _ r' => r'.machine.heap.Genuine) [] (fun _ _ hcalled => hcalled.genuine)
    (fun _ _ hheap => hheap) hr hheap

end Run

/-- **A run has genuine objects only**, those of its snapshots included. -/
theorem Sketch.genuine_of_run {snapshots : Snapshots} {s : Sketch} {r : Run}
    (h : s.run snapshots = .ok r) : r.machine.heap.Genuine := by
  refine (course_run h).genuine .fresh ?_
  intro q o hq
  cases hq

end Easel
