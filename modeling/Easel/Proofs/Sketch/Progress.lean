import Easel.Sketch.Run

/-!
# How far a run comes

A run goes through the steps of its sketch in order and stops at the first that fails. `Reaches`
and `FailsAt` tell what the run has come to before a step and at which step it stops.
-/

namespace Easel

namespace Run

variable {snapshots : Snapshots}

theorem steps_cons_eq_ok {index : Nat} {s : Step} {rest : List Step} {r r' : Run} :
    steps snapshots index (s :: rest) r = .ok r' ↔
      ∃ r₁, step snapshots index s r = .ok r₁ ∧ steps snapshots (index + 1) rest r₁ = .ok r' :=
  bind_eq_ok

theorem steps_append (index : Nat) (before after : List Step) (r : Run) :
    steps snapshots index (before ++ after) r =
      (steps snapshots index before r >>= steps snapshots (index + before.length) after) := by
  induction before generalizing index r with
  | nil => rfl
  | cons s rest ih =>
    simp only [List.cons_append, steps, List.length_cons]
    cases step snapshots index s r with
    | error e => rfl
    | ok r' =>
      have hindex : index + 1 + rest.length = index + (rest.length + 1) := by omega
      exact (ih (index + 1) r').trans (by rw [hindex]; rfl)

theorem steps_singleton (index : Nat) (s : Step) (r : Run) :
    steps snapshots index [s] r = step snapshots index s r := by
  simp only [steps]
  cases step snapshots index s r <;> rfl

end Run

namespace Sketch

variable {snapshots : Snapshots} {s : Sketch} {k : Nat} {r r' : Run} {step : Step} {e : Error}

/-- The run comes to the step at `k` and has come to `r` by then. -/
def Reaches (snapshots : Snapshots) (s : Sketch) (k : Nat) (r : Run) : Prop :=
  Run.steps snapshots 0 (s.steps.take k) {} = .ok r

/-- The run comes to the step at `k` and stops there. -/
def FailsAt (snapshots : Snapshots) (s : Sketch) (k : Nat) (e : Error) : Prop :=
  ∃ r step, s.Reaches snapshots k r ∧ s.steps[k]? = some step ∧
    Run.step snapshots k step r = .error e

theorem reaches_zero : s.Reaches snapshots 0 {} := rfl

theorem steps_take_succ (hs : s.steps[k]? = some step) :
    Run.steps snapshots 0 (s.steps.take (k + 1)) {} =
      (Run.steps snapshots 0 (s.steps.take k) {} >>= Run.step snapshots k step) := by
  obtain ⟨hk, -⟩ := List.getElem?_eq_some_iff.1 hs
  have hlen : 0 + (s.steps.take k).length = k := by
    rw [List.length_take]
    omega
  rw [List.take_add_one, hs, Option.toList_some, Run.steps_append, hlen]
  congr 1
  funext r
  exact Run.steps_singleton k step r

theorem Reaches.succ (h : s.Reaches snapshots k r) (hs : s.steps[k]? = some step)
    (hr : Run.step snapshots k step r = .ok r') : s.Reaches snapshots (k + 1) r' := by
  rw [Reaches, steps_take_succ hs, h]
  exact hr

/-- A run that has come past a step came to it, and the step went well. -/
theorem Reaches.of_succ (h : s.Reaches snapshots (k + 1) r') (hs : s.steps[k]? = some step) :
    ∃ r, s.Reaches snapshots k r ∧ Run.step snapshots k step r = .ok r' := by
  rw [Reaches, steps_take_succ hs] at h
  exact bind_eq_ok.1 h

/-- Past the last step there is nothing more to come to. -/
theorem Reaches.of_none (h : s.Reaches snapshots (k + 1) r) (hs : s.steps[k]? = none) :
    s.Reaches snapshots k r := by
  rwa [Reaches, List.take_add_one, hs, Option.toList_none, List.append_nil] at h

/-- A run comes to a step or stops before it. -/
theorem reaches_or_fails (snapshots : Snapshots) (s : Sketch) {k : Nat} (hk : k ≤ s.steps.length) :
    (∃ r, s.Reaches snapshots k r) ∨ ∃ j < k, ∃ e, s.FailsAt snapshots j e := by
  induction k with
  | zero => exact .inl ⟨{}, reaches_zero⟩
  | succ k ih =>
    rcases ih (by omega) with ⟨r, hr⟩ | ⟨j, hj, e, hfail⟩
    · have hs : s.steps[k]? = some s.steps[k] := List.getElem?_eq_getElem (by omega)
      cases hstep : Run.step snapshots k s.steps[k] r with
      | error e => exact .inr ⟨k, by omega, e, r, _, hr, hs, hstep⟩
      | ok r' => exact .inl ⟨r', hr.succ hs hstep⟩
    · exact .inr ⟨j, by omega, e, hfail⟩

theorem run_eq_ok : s.run snapshots = .ok r ↔ s.Reaches snapshots s.steps.length r := by
  rw [Reaches, List.take_length, run]

theorem FailsAt.run (h : s.FailsAt snapshots k e) : s.run snapshots = .error e := by
  obtain ⟨r, step, hr, hs, hstep⟩ := h
  obtain ⟨hk, hget⟩ := List.getElem?_eq_some_iff.1 hs
  have hnext : Run.steps snapshots 0 (s.steps.take (k + 1)) {} = .error e := by
    rw [steps_take_succ hs, hr]
    exact hstep
  rw [Sketch.run, ← List.take_append_drop (k + 1) s.steps, Run.steps_append, hnext]
  rfl

/-- A run that fails stops at some step. -/
theorem fails_of_run (h : s.run snapshots = .error e) : ∃ k, s.FailsAt snapshots k e := by
  rcases reaches_or_fails snapshots s (Nat.le_refl _) with ⟨r, hr⟩ | ⟨k, -, e', hfail⟩
  · cases h.symm.trans (run_eq_ok.2 hr)
  · cases h.symm.trans hfail.run
    exact ⟨k, hfail⟩

end Sketch

end Easel
