import Easel.Proofs.Sketch.Findings
import Easel.Proofs.Sketch.Truncation

/-!
# Which bindings are read

What a step binds to a name is read by the steps that follow, up to and including the next one that
binds the name. `ReadsFrom` says so of steps alone, and a run reads nothing else. The check looks for
bindings that are never read, but goes by names: a name that is read anywhere counts as read for all
that is bound to it.
-/

namespace Easel

namespace Sketch

variable {snapshots : Snapshots} {s : Sketch} {step : Step} {name : String} {i j k : Nat}
  {r r' : Run}

/-- The step at `j` reads the name. -/
def ReadsAt (s : Sketch) (name : String) (j : Nat) : Prop :=
  ∃ step, s.steps[j]? = some step ∧ .binding name ∈ step.args

/-- The step at `k` binds the name. -/
def BindsAt (s : Sketch) (name : String) (k : Nat) : Prop :=
  ∃ step, s.steps[k]? = some step ∧ step.bind = some name

/-- The step at `j` reads what the step at `i` has bound to the name: no step between them binds it
again. -/
structure ReadsFrom (s : Sketch) (name : String) (i j : Nat) : Prop where
  later : i < j
  reads : s.ReadsAt name j
  kept : ∀ k, i < k → k < j → ¬ s.BindsAt name k

/-- A step that reads a name and not what the one at `i` bound to it comes before that was bound or
after the name was bound again. -/
theorem ReadsAt.elsewhere (h : s.ReadsAt name j) (hfrom : ¬ s.ReadsFrom name i j) :
    j ≤ i ∨ ∃ k, i < k ∧ k < j ∧ s.BindsAt name k := by
  by_cases hle : j ≤ i
  · exact .inl hle
  · by_cases hkept : ∀ k, i < k → k < j → ¬ s.BindsAt name k
    · exact absurd ⟨Nat.lt_of_not_le hle, h, hkept⟩ hfrom
    · simp only [Classical.not_forall, Classical.not_not] at hkept
      obtain ⟨k, hi, hj, hbinds⟩ := hkept
      exact .inr ⟨k, hi, hj, hbinds⟩

/-! ## What a run reads -/

/-- **A run reads what was bound last**: as long as no step binds a name again it stays bound to
what it was. -/
theorem Reaches.get?_kept (hij : i < j) (hkept : ∀ k, i < k → k < j → ¬ s.BindsAt name k)
    (h : s.Reaches snapshots (i + 1) r) (h' : s.Reaches snapshots j r') :
    r'.bindings.get? name = r.bindings.get? name := by
  induction hij generalizing r' with
  | refl =>
    cases h.symm.trans h'
    rfl
  | @step j hij ih =>
    have hkept' : ∀ k, i < k → k < j → ¬ s.BindsAt name k := fun k hi hj =>
      hkept k hi (Nat.lt_succ_of_lt hj)
    cases hstep : s.steps[j]? with
    | none => exact ih hkept' (h'.of_none hstep)
    | some step =>
      obtain ⟨before, hbefore, hrun⟩ := h'.of_succ hstep
      refine (Run.get?_step hrun fun hbind => ?_).trans (ih hkept' hbefore)
      exact hkept j hij (Nat.lt_succ_self j) ⟨step, hstep, hbind⟩

/-! ## What the check finds -/

theorem reads_eq_true : s.reads name = true ↔ ∃ j, s.ReadsAt name j := by
  simp only [reads, List.any_eq_true]
  constructor
  · rintro ⟨step, hstep, a, ha, hreads⟩
    obtain ⟨j, hj⟩ := List.mem_iff_getElem?.1 hstep
    cases a with
    | binding n =>
      obtain rfl : n = name := by simpa using hreads
      exact ⟨j, step, hj, ha⟩
    | _ => cases hreads
  · rintro ⟨j, step, hj, ha⟩
    exact ⟨step, List.mem_of_getElem? hj, _, ha, by simp⟩

/-- Nothing that is found step by step is about an unused binding. -/
theorem unusedBinding_not_mem_checkStep (types : TypeBindings) (step : Step) (name : String) :
    .unusedBinding name ∉ (checkStep types step).1 := by
  rw [mem_checkStep_iff]
  rintro (⟨_, _, _, _, hfinding⟩ | hcall | ⟨_, _, _, hfinding⟩)
  · cases hfinding
  · cases hf : Natives.registry.get? step.call with
    | none =>
      rw [seenCall, checkCall_unknown hf] at hcall
      cases List.mem_singleton.1 hcall
    | some f =>
      obtain ⟨_, hfinding⟩ := mem_seenCall hf hcall
      cases hfinding
  · cases hfinding

/-- The check finds the bindings of names that no step reads. -/
theorem unusedBinding_mem_checkCalls :
    ⟨.unusedBinding name, some i⟩ ∈ s.checkCalls ↔
      s.BindsAt name i ∧ name.toList.head? ≠ some '_' ∧ ∀ j, ¬ s.ReadsAt name j := by
  have hsteps : ⟨.unusedBinding name, some i⟩ ∉ checkSteps [] 0 s.steps := by
    rw [mem_checkSteps]
    rintro ⟨k, step, -, finding, hfound, hd⟩
    cases hd
    exact unusedBinding_not_mem_checkStep _ _ _ hfound
  have hunread : (∀ j, ¬ s.ReadsAt name j) ↔ s.reads name = false := by
    rw [← Bool.not_eq_true, reads_eq_true, not_exists]
  rw [checkCalls, List.mem_append, or_iff_right hsteps, checkUnused, List.mem_filterMap, hunread]
  constructor
  · rintro ⟨⟨step, k⟩, hmem, hfound⟩
    dsimp only at hfound
    split at hfound
    case h_1 other hbind =>
      split at hfound
      case isTrue hcond =>
        cases hfound
        simp only [Bool.and_eq_true, Bool.not_eq_true', bne_iff_ne] at hcond
        exact ⟨⟨step, List.mk_mem_zipIdx_iff_getElem?.1 hmem, hbind⟩, hcond.2, hcond.1⟩
      case isFalse => cases hfound
    case h_2 => cases hfound
  · rintro ⟨⟨step, hstep, hbind⟩, hname, hreads⟩
    refine ⟨(step, i), List.mk_mem_zipIdx_iff_getElem?.2 hstep, ?_⟩
    simp [hbind, hreads, hname]

/-- **Bindings are found unused by name.** The check warns of what a step binds to a name if and
only if no step reads the name at all. So it warns of nothing that is read, and of what is not read
unless the name is read elsewhere: before it was bound, or after it was bound again. What a step
reads is, in every run, what is said here. -/
theorem unused_by_name (s : Sketch) (name : String) (i : Nat) (hbinds : s.BindsAt name i)
    (hname : name.toList.head? ≠ some '_') :
    (⟨.unusedBinding name, some i⟩ ∈ s.checkCalls ↔ ∀ j, ¬ s.ReadsAt name j) ∧
    (⟨.unusedBinding name, some i⟩ ∈ s.checkCalls → ∀ j, ¬ s.ReadsFrom name i j) ∧
    ((∀ j, ¬ s.ReadsFrom name i j) → ⟨.unusedBinding name, some i⟩ ∉ s.checkCalls →
      ∃ j, s.ReadsAt name j ∧ (j ≤ i ∨ ∃ k, i < k ∧ k < j ∧ s.BindsAt name k)) ∧
    ∀ snapshots j r r', s.ReadsFrom name i j → s.Reaches snapshots (i + 1) r →
      s.Reaches snapshots j r' → r'.bindings.get? name = r.bindings.get? name := by
  have hwarned : ⟨.unusedBinding name, some i⟩ ∈ s.checkCalls ↔ ∀ j, ¬ s.ReadsAt name j := by
    rw [unusedBinding_mem_checkCalls, and_iff_right hbinds, and_iff_right hname]
  refine ⟨hwarned, fun h j hfrom => hwarned.1 h j hfrom.reads, fun hunread hmissed => ?_, ?_⟩
  · simp only [hwarned, Classical.not_forall, Classical.not_not] at hmissed
    obtain ⟨j, hreads⟩ := hmissed
    exact ⟨j, hreads, hreads.elsewhere (hunread j)⟩
  · intro snapshots j r r' hfrom h h'
    exact Reaches.get?_kept hfrom.later hfrom.kept h h'

/-- A sketch that makes a second gasket under the name of the first one, and leaves it at that. -/
def shadowing : Sketch where
  name := "shadowing"
  steps := [
    { call := "Apol", bind := some "g" },
    { call := "Apol.draw", args := [.binding "g"] },
    { call := "Apol", bind := some "g" }]

theorem unused_by_name_shadowing :
    shadowing.BindsAt "g" 2 ∧ "g".toList.head? ≠ some '_' ∧ shadowing.ReadsAt "g" 1 ∧
      ⟨.unusedBinding "g", some 2⟩ ∉ shadowing.checkCalls := by
  have hbinds : shadowing.BindsAt "g" 2 := ⟨_, rfl, rfl⟩
  have hname : "g".toList.head? ≠ some '_' := by decide
  have hreads : shadowing.ReadsAt "g" 1 := ⟨_, rfl, List.mem_singleton_self _⟩
  exact ⟨hbinds, hname, hreads, fun h => (unused_by_name _ _ _ hbinds hname).1.1 h 1 hreads⟩

/-- A binding that is never read is not always found. -/
theorem unused_missed :
    ¬∀ (s : Sketch) (name : String) (i : Nat), s.BindsAt name i → name.toList.head? ≠ some '_' →
      (⟨.unusedBinding name, some i⟩ ∈ s.checkCalls ↔ ∀ j, ¬ s.ReadsFrom name i j) := by
  intro h
  have hmissed : ⟨.unusedBinding "g", some 2⟩ ∉ shadowing.checkCalls := by decide
  refine hmissed ((h shadowing "g" 2 ⟨_, rfl, rfl⟩ (by decide)).2 fun j hfrom => ?_)
  obtain ⟨step, hstep, -⟩ := hfrom.reads
  have hlast : shadowing.steps[j]? = none := List.getElem?_eq_none hfrom.later
  cases hlast.symm.trans hstep

end Sketch

end Easel
