import Easel.Script.Value

/-!
# Heaps that grow

Objects are never freed and never change their class, so a heap only evolves: what was there stays,
in its class. A value keeps its type while the heap evolves, provided that it does not refer to an
object still to be made.
-/

namespace Easel

namespace Heap

variable {h h' h'' : Heap}

/-- Every object of `h` is still there in `h'`, in the same class. -/
def Evolves (h h' : Heap) : Prop :=
  ∀ r o, h.get? r = some o → ∃ o', h'.get? r = some o' ∧ o'.kind = o.kind

theorem get?_eq_some_lt {r : ObjectRef} {o : Object} (hr : h.get? r = some o) :
    r.index < h.size :=
  (Array.getElem?_eq_some_iff.1 hr).1

theorem exists_get?_of_lt {r : ObjectRef} (hr : r.index < h.size) : ∃ o, h.get? r = some o :=
  ⟨_, Array.getElem?_eq_getElem hr⟩

theorem get?_eq_none_of_le {r : ObjectRef} (hr : h.size ≤ r.index) : h.get? r = none :=
  Array.getElem?_eq_none hr

/-- Only the new reference stands for something else after an object is made. -/
theorem get?_alloc_of_ne (h : Heap) (o : Object) {r : ObjectRef} (hr : r ≠ (h.alloc o).1) :
    (h.alloc o).2.get? r = h.get? r := by
  have : r.index ≠ h.size := fun e => hr (by cases r; simp_all [alloc])
  simp only [alloc, get?, size] at *
  grind

namespace Evolves

theorem refl (h : Heap) : h.Evolves h := fun _ o ho => ⟨o, ho, rfl⟩

theorem trans (h₁ : h.Evolves h') (h₂ : h'.Evolves h'') : h.Evolves h'' := by
  intro r o ho
  obtain ⟨o', ho', hk'⟩ := h₁ r o ho
  obtain ⟨o'', ho'', hk''⟩ := h₂ r o' ho'
  exact ⟨o'', ho'', hk''.trans hk'⟩

theorem alloc (h : Heap) (o : Object) : h.Evolves (h.alloc o).2 := by
  intro r o' ho'
  exact ⟨o', by rw [get?_alloc_of_lt h o (get?_eq_some_lt ho'), ho'], rfl⟩

/-- An object may be replaced by one of its own class. -/
theorem set {r : ObjectRef} {o₀ o : Object} (hr : h.get? r = some o₀) (hk : o₀.kind = o.kind) :
    h.Evolves (h.set r o) := by
  intro q p hq
  by_cases hqr : r = q
  · subst hqr
    obtain rfl : o₀ = p := Option.some.inj (hr.symm.trans hq)
    exact ⟨o, get?_set_self h o (get?_eq_some_lt hr), hk.symm⟩
  · exact ⟨p, by rw [get?_set_of_ne h o hqr, hq], rfl⟩

end Evolves

/-- Makes new objects, in order. -/
def allocAll (h : Heap) : List Object → List ObjectRef × Heap
  | [] => ([], h)
  | o :: os => ((h.alloc o).1 :: ((h.alloc o).2.allocAll os).1, ((h.alloc o).2.allocAll os).2)

theorem Evolves.allocAll (h : Heap) (os : List Object) : h.Evolves (h.allocAll os).2 := by
  induction os generalizing h with
  | nil => exact .refl h
  | cons o os ih => exact (Evolves.alloc h o).trans (ih (h.alloc o).2)

@[simp] theorem size_allocAll (h : Heap) (os : List Object) :
    (h.allocAll os).2.size = h.size + os.length := by
  induction os generalizing h with
  | nil => rfl
  | cons o os ih =>
    simp only [Heap.allocAll, ih, size_alloc, List.length_cons]
    omega

/-- Making objects leaves the others alone. -/
theorem get?_allocAll_of_lt (h : Heap) (os : List Object) {r : ObjectRef}
    (hr : r.index < h.size) : (h.allocAll os).2.get? r = h.get? r := by
  induction os generalizing h with
  | nil => rfl
  | cons o os ih =>
    have hr' : r.index < (h.alloc o).2.size := by
      rw [size_alloc]
      omega
    rw [Heap.allocAll, ih _ hr', get?_alloc_of_lt h o hr]

/-- The objects made are behind those that were there. -/
theorem mem_allocAll {h : Heap} {os : List Object} {r : ObjectRef} (hr : r ∈ (h.allocAll os).1) :
    h.size ≤ r.index ∧ r.index < h.size + os.length := by
  induction os generalizing h with
  | nil => cases hr
  | cons o os ih =>
    rw [List.length_cons]
    rcases List.mem_cons.1 hr with rfl | hr
    · exact ⟨Nat.le_refl _, by simp only [alloc]; omega⟩
    · have := ih hr
      rw [size_alloc] at this
      omega

/-- A reference made for one of these objects stands for one of them. -/
theorem exists_get?_allocAll {h : Heap} {os : List Object} {r : ObjectRef}
    (hr : r ∈ (h.allocAll os).1) : ∃ o ∈ os, (h.allocAll os).2.get? r = some o := by
  induction os generalizing h with
  | nil => cases hr
  | cons o os ih =>
    rcases List.mem_cons.1 hr with rfl | hr
    · refine ⟨o, List.mem_cons_self, ?_⟩
      have hlt : (h.alloc o).1.index < (h.alloc o).2.size :=
        get?_eq_some_lt (get?_alloc_self h o)
      exact (get?_allocAll_of_lt _ os hlt).trans (get?_alloc_self h o)
    · obtain ⟨p, hp, hget⟩ := ih hr
      exact ⟨p, List.mem_cons_of_mem o hp, hget⟩

end Heap

namespace Value

variable {h h' : Heap} {v : Value}

attribute [local simp] type

theorem type_eq_number : v.type h = .number ↔ ∃ x, v = .number x := by
  cases v <;> simp
  split <;> simp

theorem type_eq_text : v.type h = .text ↔ ∃ s, v = .text s := by
  cases v <;> simp
  split <;> simp

theorem type_eq_colour : v.type h = .colour ↔ ∃ c, v = .colour c := by
  cases v <;> simp
  split <;> simp

theorem type_eq_object {c : ObjectClass} :
    v.type h = .object c ↔ ∃ r o, v = .object r ∧ h.get? r = some o ∧ o.kind = c := by
  cases v <;> simp
  split <;> simp [*]

/-- No value changes its type when an object is replaced by one of its own class. -/
theorem type_set {r : ObjectRef} {o₀ o : Object} (hr : h.get? r = some o₀)
    (hk : o₀.kind = o.kind) (v : Value) : v.type (h.set r o) = v.type h := by
  cases v with
  | object q =>
    by_cases hqr : r = q
    · subst hqr
      simp only [type, Heap.get?_set_self h o (Heap.get?_eq_some_lt hr), hr, hk]
    · simp only [type, Heap.get?_set_of_ne h o hqr]
  | _ => rfl

/-- A reference is live if its object has been made. -/
def Live (h : Heap) (v : Value) : Prop := ∀ r, v = .object r → ∃ o, h.get? r = some o

theorem live_of_type_ne (hv : v.type h ≠ .nothing) : v.Live h := by
  rintro r rfl
  cases hr : h.get? r with
  | none => simp [hr] at hv
  | some o => exact ⟨o, rfl⟩

theorem Live.evolves (hv : v.Live h) (he : h.Evolves h') : v.Live h' := by
  intro r hr
  obtain ⟨o, ho⟩ := hv r hr
  obtain ⟨o', ho', _⟩ := he r o ho
  exact ⟨o', ho'⟩

/-- The type of a live value is fixed. -/
theorem Live.type_evolves (hv : v.Live h) (he : h.Evolves h') : v.type h' = v.type h := by
  cases v with
  | object r =>
    obtain ⟨o, ho⟩ := hv r rfl
    obtain ⟨o', ho', hk⟩ := he r o ho
    simp only [type, ho, ho', hk]
  | _ => rfl

end Value

end Easel
