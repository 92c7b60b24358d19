import Easel.Proofs.Natives.Oblivious
import Easel.Proofs.Sketch.Course

/-!
# Snapshots go unseen

A run that keeps snapshots has objects in its heap that a run without them has not, and so all that
is made later has other references. Apart from that the two runs agree at every point:
`Run.Renamed` is what they agree in, every call preserves it because no native looks at references,
and every frame preserves it after room is made in the renaming for the copies.
-/

namespace Easel

/-- The bindings with every reference renamed. -/
def Bindings.rename (ρ : ObjectRef → ObjectRef) (b : Bindings) : Bindings :=
  ⟨b.entries.map fun e => (e.1, e.2.rename ρ)⟩

namespace Bindings

variable (ρ : ObjectRef → ObjectRef) (b : Bindings)

theorem get?_rename (name : String) :
    (b.rename ρ).get? name = (b.get? name).map (Value.rename ρ) := by
  obtain ⟨entries⟩ := b
  simp only [get?, rename]
  induction entries with
  | nil => rfl
  | cons e rest ih =>
    obtain ⟨n, v⟩ := e
    simp only [List.map_cons, List.lookup_cons, ih]
    cases name == n <;> rfl

theorem insert_rename (name : String) (v : Value) :
    (b.rename ρ).insert name (v.rename ρ) = (b.insert name v).rename ρ := by
  simp only [insert, rename, List.map_cons, List.filter_map]
  rfl

end Bindings

namespace Run

variable {ρ : ObjectRef → ObjectRef} {index : Nat} {f : Native} {args : List Value} {s : Step}
  {r r' t : Run}

/-- `r'` has come to what `r` has come to, under the references that `ρ` gives to those of `r`: it
holds the same objects, the same session and the same bindings, and has produced as many frames. -/
structure Renamed (ρ : ObjectRef → ObjectRef) (r r' : Run) : Prop where
  machine : r.machine.Renamed ρ r'.machine
  bindings : r'.bindings = r.bindings.rename ρ
  frames : r'.frames = r.frames

namespace Renamed

theorem refl (r : Run) : r.Renamed id r := by
  refine ⟨⟨.refl _, ?_⟩, ?_, rfl⟩
  · have hvalue : Value.rename id = id := funext Value.rename_id
    have hshown : Shown.rename id = id := rfl
    simp [Session.rename, hvalue, hshown]
  · simp [Bindings.rename]

theorem fresh : Renamed id {} {} := .refl {}

/-- What is on the canvas does not depend on references. -/
theorem shown_eq (h : r.Renamed ρ r') : r'.shown = r.shown := by
  simp only [Run.shown, Machine.shown, Heap.shown, h.machine.session, Session.rename,
    Array.toList_map, List.filterMap_map]
  congr 1
  funext s
  simp only [Function.comp_apply, Shown.rename, h.machine.heap.get?_eq]

theorem valueOf_eq (h : r.Renamed ρ r') (a : Arg) :
    valueOf r'.bindings a = (valueOf r.bindings a).rename ρ := by
  cases a with
  | binding name =>
    simp only [valueOf, h.bindings, Bindings.get?_rename]
    cases r.bindings.get? name <;> rfl
  | _ => rfl

theorem bound_eq (h : r.Renamed ρ r') : r'.bound = r.bound := by
  funext name
  simp only [bound, h.bindings, Bindings.get?_rename, Option.isSome_map]

theorem settle (h : r.Renamed ρ r') (s : Step) (answer : Option Value) :
    (Run.settle s answer r).Renamed ρ (Run.settle s (answer.map (Value.rename ρ)) r') := by
  unfold Run.settle
  split
  · refine ⟨h.machine, ?_, h.frames⟩
    rw [h.bindings, ← Bindings.insert_rename]
    cases answer <;> rfl
  · exact h

/-- Frames without snapshots are alike. -/
theorem takeFrame_skip (h : r.Renamed ρ r') (index : Nat) :
    (takeFrame .skip index r).Renamed ρ (takeFrame .skip index r') := by
  have hpending : r'.machine.session.redrawPending = r.machine.session.redrawPending := by
    rw [h.machine.session]
    rfl
  refine ⟨⟨?_, ?_⟩, ?_, ?_⟩
  · rw [heap_takeFrame, heap_takeFrame]
    exact h.machine.heap
  · rw [session_takeFrame, session_takeFrame, h.machine.session]
    rfl
  · rw [bindings_takeFrame, bindings_takeFrame, h.bindings]
  · rw [frames_takeFrame, frames_takeFrame, hpending, h.frames]

/-- A snapshot adds nothing to a frame but objects to the heap. -/
theorem takeFrame_keep (hr : r.Neat) (h : r.Renamed ρ (takeFrame .skip index t)) :
    ∃ σ, r.Renamed σ (takeFrame .keep index t) ∧
      ∀ q, q.index < r.machine.heap.size → σ q = ρ q := by
  have hheap : (takeFrame .keep index t).machine.heap =
      ((takeFrame .skip index t).machine.heap.allocAll ((copied .keep t).map Prod.fst)).2 := by
    rw [heap_takeFrame, heap_takeFrame]
    rfl
  generalize hk : ((copied .keep t).map Prod.fst).length = k
  have hσ : ∀ q, q.index < r.machine.heap.size →
      Heap.makeRoom ρ r.machine.heap.size k q = ρ q := fun q hq => if_pos hq
  refine ⟨Heap.makeRoom ρ r.machine.heap.size k, ⟨⟨?_, ?_⟩, ?_, ?_⟩, hσ⟩
  · rw [hheap, ← hk]
    exact h.machine.heap.makeRoom _
  · have hsession : (takeFrame .keep index t).machine.session =
        (takeFrame .skip index t).machine.session := by
      rw [session_takeFrame, session_takeFrame]
    rw [hsession, h.machine.session]
    simp only [Session.rename, hr.stack, List.map_nil]
    congr 1
    refine Array.map_congr_left fun s hs => ?_
    simp only [Shown.rename, hσ _ (hr.canvas s (by simpa using hs)).1]
  · rw [bindings_takeFrame, ← bindings_takeFrame .skip index t, h.bindings]
    simp only [Bindings.rename]
    congr 1
    refine List.map_congr_left fun e he => ?_
    have : e.2.rename ρ = e.2.rename (Heap.makeRoom ρ r.machine.heap.size k) :=
      Value.rename_congr fun q hq => (hσ q (hr.bindings e he q hq).1).symm
    rw [this]
  · rw [frames_takeFrame, ← frames_takeFrame .skip index t, h.frames]

end Renamed

/-! ## Two runs side by side -/

theorem rename_eq_of_holds {σ : ObjectRef → ObjectRef} {v : Value}
    (hσ : ∀ q, q.index < r.machine.heap.size → σ q = ρ q) (hv : r.Holds v) :
    v.rename σ = v.rename ρ :=
  Value.rename_congr fun q hq => hσ q (hv q hq).1

/-- A call fails on both sides, or leaves runs that agree again, under another renaming. -/
theorem callOnce_renamed (index : Nat) (hf : f ∈ Natives.registry.natives) (hr : r.Tidy)
    (hargs : ∀ v ∈ args, r.Holds v) (h : r.Renamed ρ r') :
    (∃ e, callOnce .skip index f args r = .error e ∧
      callOnce .keep index f (args.map (Value.rename ρ)) r' = .error e) ∨
    ∃ answer r₁ r₁' σ, callOnce .skip index f args r = .ok (answer, r₁) ∧
      callOnce .keep index f (args.map (Value.rename ρ)) r' =
        .ok (answer.map (Value.rename σ), r₁') ∧ r₁.Renamed σ r₁' ∧
      args.map (Value.rename σ) = args.map (Value.rename ρ) := by
  obtain ⟨hresult, hm⟩ := (Natives.oblivious hf).call args r.machine r'.machine h.machine
  rcases hcall : (f.call args).run r.machine with ⟨e | answer, m⟩ <;>
    rcases hcall' : (f.call (args.map (Value.rename ρ))).run r'.machine with ⟨e' | answer', m'⟩ <;>
    rw [hcall, hcall'] at hresult hm <;> cases hresult
  · exact .inl ⟨e, by simp only [callOnce, hcall], by simp only [callOnce, hcall']⟩
  · right
    have honce : callOnce .skip index f args r =
        .ok (answer, takeFrame .skip index { r with machine := m }) := by
      simp only [callOnce, hcall]
    obtain ⟨htidy, hprecedes, hanswer⟩ :=
      hr.called hargs (called_of_callOnce hf hr.settled honce)
    have hskip : Renamed ρ { r with machine := m } { r' with machine := m' } :=
      ⟨hm, h.bindings, h.frames⟩
    -- The copies take references that were still to be given on the other side, so the renaming
    -- is another one from here on; but it renames all that the run holds as before.
    obtain ⟨σ, hσ, heq⟩ := (hskip.takeFrame_skip index).takeFrame_keep htidy.toNeat
    refine ⟨answer, _, takeFrame .keep index { r' with machine := m' }, σ, honce, ?_, hσ, ?_⟩
    · have hrename : answer.map (Value.rename ρ) = answer.map (Value.rename σ) := by
        cases answer with
        | none => rfl
        | some v => exact congrArg some (rename_eq_of_holds heq (hanswer v rfl)).symm
      simp only [callOnce, hcall', hrename]
    · exact List.map_congr_left fun v hv =>
        rename_eq_of_holds heq (hprecedes.holds (hargs v hv))

theorem callTimes_renamed (index : Nat) (hf : f ∈ Natives.registry.natives) {n : Nat}
    (last : Option Value) (hr : r.Tidy) (hargs : ∀ v ∈ args, r.Holds v) (h : r.Renamed ρ r') :
    (∃ e, callTimes .skip index f args n last r = .error e ∧
      callTimes .keep index f (args.map (Value.rename ρ)) n (last.map (Value.rename ρ)) r' =
        .error e) ∨
    ∃ answer r₁ r₁' σ, callTimes .skip index f args n last r = .ok (answer, r₁) ∧
      callTimes .keep index f (args.map (Value.rename ρ)) n (last.map (Value.rename ρ)) r' =
        .ok (answer.map (Value.rename σ), r₁') ∧ r₁.Renamed σ r₁' := by
  induction n generalizing ρ last r r' with
  | zero => exact .inr ⟨last, r, r', ρ, rfl, rfl, h⟩
  | succ n ih =>
    rcases callOnce_renamed index hf hr hargs h with
      ⟨e, honce, honce'⟩ | ⟨answer, r₁, r₁', σ, honce, honce', hσ, heq⟩
    · exact .inl ⟨e, by simp only [callTimes, honce]; rfl, by simp only [callTimes, honce']; rfl⟩
    · obtain ⟨htidy, hprecedes, -⟩ := hr.called hargs (called_of_callOnce hf hr.settled honce)
      have hrest := ih answer htidy (fun v hv => hprecedes.holds (hargs v hv)) hσ
      rw [heq] at hrest
      simp only [callTimes, honce, honce']
      exact hrest

/-- A step fails on both sides, or leaves runs that agree again. -/
theorem step_renamed (index : Nat) (s : Step) (hr : r.Tidy) (h : r.Renamed ρ r') :
    (∃ e, step .skip index s r = .error e ∧ step .keep index s r' = .error e) ∨
    ∃ r₁ r₁' σ, step .skip index s r = .ok r₁ ∧ step .keep index s r' = .ok r₁' ∧
      r₁.Renamed σ r₁' := by
  cases hf : Natives.registry.get? s.call with
  | none => exact .inl ⟨_, step_unknown hf, step_unknown hf⟩
  | some f =>
    cases hu : s.unbound? r.bound with
    | some name =>
      exact .inl ⟨_, step_unbound hf hu, step_unbound hf (h.bound_eq ▸ hu)⟩
    | none =>
      have hvalues : s.args.map (valueOf r'.bindings) =
          (s.args.map (valueOf r.bindings)).map (Value.rename ρ) := by
        rw [List.map_map]
        exact List.map_congr_left fun a _ => h.valueOf_eq a
      rw [step_bound hf hu, step_bound hf (h.bound_eq ▸ hu), hvalues]
      have hmem := (Registry.get?_some hf).1
      rcases callTimes_renamed index hmem none hr (hr.holds_values s.args) h with
        ⟨e, hcalls, hcalls'⟩ | ⟨answer, r₁, r₁', σ, hcalls, hcalls', hσ⟩
      · rw [Option.map_none] at hcalls'
        refine .inl ⟨e, ?_, ?_⟩
        · rw [hcalls]
          rfl
        · rw [hcalls']
          rfl
      · rw [Option.map_none] at hcalls'
        refine .inr ⟨_, _, σ, ?_, ?_, hσ.settle s answer⟩
        · rw [hcalls]
          rfl
        · rw [hcalls']
          rfl

theorem steps_renamed (index : Nat) (ss : List Step) (hr : r.Tidy) (h : r.Renamed ρ r') :
    (∃ e, steps .skip index ss r = .error e ∧ steps .keep index ss r' = .error e) ∨
    ∃ r₁ r₁' σ, steps .skip index ss r = .ok r₁ ∧ steps .keep index ss r' = .ok r₁' ∧
      r₁.Renamed σ r₁' := by
  induction ss generalizing index ρ r r' with
  | nil => exact .inr ⟨r, r', ρ, rfl, rfl, h⟩
  | cons s rest ih =>
    rcases step_renamed index s hr h with ⟨e, hstep, hstep'⟩ | ⟨r₁, r₁', σ, hstep, hstep', hσ⟩
    · refine .inl ⟨e, ?_, ?_⟩
      · rw [steps, hstep]
        rfl
      · rw [steps, hstep']
        rfl
    · have hrest := ih (index + 1) ((course_step hr hstep).tidy hr).1 hσ
      rw [steps, steps, hstep, hstep']
      exact hrest

end Run

/-- **No one can tell whether snapshots are kept** but by looking at the snapshots: the sketch fails
with the same error, or comes to the same number of frames, and to the same bindings and the same
session up to the references, which are renamed so that none are confused. -/
theorem Sketch.run_snapshots_unseen (s : Sketch) :
    (∃ e, s.run .skip = .error e ∧ s.run .keep = .error e) ∨
    ∃ r r' ρ, s.run .skip = .ok r ∧ s.run .keep = .ok r' ∧ r.Renamed ρ r' :=
  Run.steps_renamed 0 s.steps .fresh .fresh

end Easel
