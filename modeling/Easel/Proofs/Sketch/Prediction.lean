import Easel.Proofs.Sketch.Simulation

/-!
# What the check says about the run

The check of calls predicts the run of a sketch all of whose steps run: the first step in which it
finds an error is where the run ends, and with the error announced, unless a field is unknown
before. What the check does not see are steps that are repeated zero times: what they bind is of
another type than it takes it to be. `ReadsIdle` is all that this comes to.
-/

namespace Easel

open Step (binder? Idle)

namespace Sketch

variable {snapshots : Snapshots} {s : Sketch} {k : Nat} {step : Step} {r : Run} {e : Error}

/-- The steps before the one at `k` bind the name. -/
def boundBefore (s : Sketch) (k : Nat) (name : String) : Bool :=
  (s.steps.take k).any fun step => step.bind == some name

/-- The check of calls finds an error in the step at `k`, and none in the steps before. -/
def FirstError (s : Sketch) (k : Nat) : Prop :=
  s.errorsAt k ≠ [] ∧ ∀ j < k, s.errorsAt j = []

theorem clean_iff (h : s.steps[k]? = some step) :
    Clean (s.typesBefore k) step ↔ s.errorsAt k = [] := by
  rw [List.eq_nil_iff_forall_not_mem]
  simp only [Clean, mem_errorsAt h, not_and]
  exact ⟨fun hc finding herror hfound => hc finding hfound herror,
    fun hc finding hfound herror => hc finding herror hfound⟩

theorem errorsAt_eq_nil (h : ∀ d ∈ s.checkCalls, d.severity ≠ .error) (k : Nat) :
    s.errorsAt k = [] := by
  simp only [errorsAt, List.map_eq_nil_iff, List.filter_eq_nil_iff, Bool.and_eq_true, beq_iff_eq]
  intro d hd herror
  exact h d hd herror.1

/-- Where there are errors there is a first one. -/
theorem exists_firstError (h : ∃ d ∈ s.checkCalls, d.severity = .error) :
    ∃ k step, s.steps[k]? = some step ∧ s.FirstError k := by
  obtain ⟨d, hd, herror⟩ := h
  obtain ⟨k, step, hs, finding, hfound, rfl⟩ := (error_mem_checkCalls herror).1 hd
  have hne : s.errorsAt k ≠ [] :=
    List.ne_nil_of_mem ((mem_errorsAt hs).2 ⟨herror, hfound⟩)
  clear hfound hd herror
  induction k using Nat.strongRecOn generalizing step with
  | ind k ih =>
    by_cases hall : ∀ j < k, s.errorsAt j = []
    · exact ⟨k, step, hs, hne, hall⟩
    · simp only [Classical.not_forall] at hall
      obtain ⟨j, hj, hne'⟩ := hall
      have hlt : j < s.steps.length := by
        have := (List.getElem?_eq_some_iff.1 hs).1
        omega
      exact ih j hj _ (List.getElem?_eq_getElem hlt) hne'

/-- **The check and the run agree as far as the check finds no error**: a run that has come to a
step has bound what the check has recorded. -/
theorem Reaches.agrees (h : s.Reaches snapshots k r) (hk : k ≤ s.steps.length)
    (hclean : ∀ j < k, s.errorsAt j = []) : Agrees (s.steps.take k) (s.typesBefore k) r := by
  induction k generalizing r with
  | zero =>
    cases h
    exact Agrees.nil
  | succ k ih =>
    have hs : s.steps[k]? = some s.steps[k] := List.getElem?_eq_getElem hk
    obtain ⟨r₀, hr₀, hstep⟩ := h.of_succ hs
    have hagrees := ih hr₀ (by omega) fun j hj => hclean j (by omega)
    rw [typesBefore_succ hs, List.take_add_one, hs, Option.toList_some]
    exact hagrees.step ((clean_iff hs).2 (hclean k (by omega))) hstep

/-! ## Sketches all of whose steps run -/

theorem not_idle (hs : ∀ step ∈ s.steps, 1 ≤ step.times) (k : Nat) (a : Arg) :
    ¬ Idle (s.steps.take k) a := by
  rintro ⟨name, b, -, hb, hzero⟩
  have hmem : b ∈ s.steps :=
    List.mem_of_mem_take (List.mem_reverse.1 (List.mem_of_find?_eq_some hb))
  have := hs b hmem
  omega

/-- Before the first error only an unknown field ends the run. -/
theorem FailsAt.unknownField (h : s.FailsAt snapshots k e)
    (hidle : ∀ step, s.steps[k]? = some step → step.times ≠ 0 →
      ∀ a ∈ step.args, ¬ Idle (s.steps.take k) a)
    (hclean : ∀ j ≤ k, s.errorsAt j = []) :
    ∃ owner field known, e = .unknownField owner field known := by
  obtain ⟨r, step, hr, hs, hfail⟩ := h
  have hlt := (List.getElem?_eq_some_iff.1 hs).1
  have hagrees := hr.agrees (by omega) fun j hj => hclean j (by omega)
  rcases hagrees.step_clean ((clean_iff hs).2 (hclean k (by omega))) (hidle step hs) with
    ⟨r', hstep, -⟩ | ⟨owner, field, known, hstep⟩
  · cases hfail.symm.trans hstep
  · cases hfail.symm.trans hstep
    exact ⟨owner, field, known, rfl⟩

/-- **The check predicts the run** of a sketch all of whose steps run. -/
theorem run_predicted (snapshots : Snapshots) (s : Sketch)
    (hs : ∀ step ∈ s.steps, 1 ≤ step.times) :
    ((∀ d ∈ s.checkCalls, d.severity ≠ .error) →
      (∃ r, s.run snapshots = .ok r) ∨
        ∃ owner field known, s.run snapshots = .error (.unknownField owner field known)) ∧
    ((∃ d ∈ s.checkCalls, d.severity = .error) →
      ∃ i step e, s.FirstError i ∧ s.steps[i]? = some step ∧ s.run snapshots = .error e ∧
        ((∃ j < i, s.FailsAt snapshots j e ∧
            ∃ owner field known, e = .unknownField owner field known) ∨
          s.FailsAt snapshots i e ∧
            Announces (s.errorsAt i) (step.unbound? (s.boundBefore i)) e)) := by
  constructor
  · intro hclean
    cases hrun : s.run snapshots with
    | ok r => exact .inl ⟨r, rfl⟩
    | error e =>
      obtain ⟨k, hfail⟩ := fails_of_run hrun
      obtain ⟨owner, field, known, rfl⟩ := hfail.unknownField
        (fun _ _ _ a _ => not_idle hs k a) fun j _ => errorsAt_eq_nil hclean j
      exact .inr ⟨owner, field, known, rfl⟩
  · intro herror
    obtain ⟨i, step, hi, hfirst⟩ := exists_firstError herror
    have hlt := (List.getElem?_eq_some_iff.1 hi).1
    rcases reaches_or_fails snapshots s (Nat.le_of_lt hlt) with ⟨r, hr⟩ | ⟨j, hj, e, hfail⟩
    · have hagrees := hr.agrees (Nat.le_of_lt hlt) hfirst.2
      have htimes : step.times ≠ 0 := Nat.pos_iff_ne_zero.1 (hs step (List.mem_of_getElem? hi))
      obtain ⟨e, hstep, hannounces⟩ := hagrees.step_announced
        (fun hc => hfirst.1 ((clean_iff hi).1 hc)) htimes (fun a _ => not_idle hs i a)
        fun finding => mem_errorsAt hi
      have hfail : s.FailsAt snapshots i e := ⟨r, step, hr, hi, hstep⟩
      rw [hagrees.bound] at hannounces
      exact ⟨i, step, e, hfirst, hi, hfail.run, .inr ⟨hfail, hannounces⟩⟩
    · have hfield := hfail.unknownField (fun _ _ _ a _ => not_idle hs j a)
        fun j' hj' => hfirst.2 j' (by omega)
      exact ⟨i, step, e, hfirst, hi, hfail.run, .inl ⟨j, hj, hfail, hfield⟩⟩

/-- A sketch that steps a gasket with an argument too many. -/
def overfed : Sketch where
  name := "overfed"
  steps := [
    { call := "Apol", bind := some "g" },
    { call := "Apol.next", args := [.binding "g", .number 1] }]

theorem run_predicted_overfed :
    (∀ step ∈ overfed.steps, 1 ≤ step.times) ∧ ∃ e, overfed.run .skip = .error e := by
  have hs : ∀ step ∈ overfed.steps, 1 ≤ step.times := by simp [overfed]
  have herror : ∃ d ∈ overfed.checkCalls, d.severity = .error := by decide
  obtain ⟨-, -, e, -, -, hrun, -⟩ := (run_predicted .skip overfed hs).2 herror
  exact ⟨hs, e, hrun⟩

/-! ## Steps that never run -/

/-- The step at `k` runs, and reads what a step that never ran has bound. -/
def ReadsIdle (s : Sketch) (k : Nat) : Prop :=
  ∃ step, s.steps[k]? = some step ∧ step.times ≠ 0 ∧ ∃ a ∈ step.args, Idle (s.steps.take k) a

theorem ReadsIdle.fails (h : s.ReadsIdle k) (hr : s.Reaches snapshots k r)
    (hclean : ∀ j, s.errorsAt j = []) :
    ∃ call attempted available, .nothing ∈ attempted ∧
      s.FailsAt snapshots k (.typeMismatch call attempted available) := by
  obtain ⟨step, hs, htimes, a, ha, hidle⟩ := h
  have hlt := (List.getElem?_eq_some_iff.1 hs).1
  have hagrees := hr.agrees (by omega) fun j _ => hclean j
  obtain ⟨attempted, available, hnothing, hstep⟩ :=
    hagrees.step_idle ((clean_iff hs).2 (hclean k)) htimes ha hidle
  exact ⟨step.call, attempted, available, hnothing, r, step, hr, hs, hstep⟩

/-- **A sketch that passes the check fails only over an unknown field**, but for one case: the run
comes to a step that reads what a step without a run has bound. It then ends there, because no
overload takes `nothing`. -/
theorem run_of_check (snapshots : Snapshots) (s : Sketch)
    (hs : ∀ d ∈ s.check, d.severity ≠ .error) :
    ((∃ e, s.run snapshots = .error e ∧
        ∀ owner field known, e ≠ .unknownField owner field known) ↔
      ∃ k r, s.ReadsIdle k ∧ s.Reaches snapshots k r) ∧
    ∀ e, s.run snapshots = .error e →
      (∃ owner field known, e = .unknownField owner field known) ∨
        ∃ call attempted available, e = .typeMismatch call attempted available ∧
          .nothing ∈ attempted := by
  have hclean : ∀ j, s.errorsAt j = [] := errorsAt_eq_nil fun d hd => hs d (by
    simp only [check, List.mem_append, hd, true_or, or_true])
  have hfield : ∀ {k e}, s.FailsAt snapshots k e → ¬ s.ReadsIdle k →
      ∃ owner field known, e = .unknownField owner field known := by
    intro k e hfail hreads
    refine hfail.unknownField ?_ fun j _ => hclean j
    intro step hk htimes a ha hidle
    exact hreads ⟨step, hk, htimes, a, ha, hidle⟩
  refine ⟨⟨?_, ?_⟩, ?_⟩
  · rintro ⟨e, hrun, hne⟩
    obtain ⟨k, hfail⟩ := fails_of_run hrun
    by_cases hreads : s.ReadsIdle k
    · obtain ⟨r, step, hr, -⟩ := hfail
      exact ⟨k, r, hreads, hr⟩
    · obtain ⟨owner, field, known, he⟩ := hfield hfail hreads
      exact absurd he (hne owner field known)
  · rintro ⟨k, r, hreads, hr⟩
    obtain ⟨call, attempted, available, -, hfail⟩ := hreads.fails hr hclean
    exact ⟨_, hfail.run, by simp⟩
  · intro e hrun
    obtain ⟨k, hfail⟩ := fails_of_run hrun
    by_cases hreads : s.ReadsIdle k
    · obtain ⟨r, step, hr, hk, hstep⟩ := hfail
      obtain ⟨call, attempted, available, hnothing, hfail'⟩ := hreads.fails hr hclean
      cases hrun.symm.trans hfail'.run
      exact .inr ⟨call, attempted, available, rfl, hnothing⟩
    · exact .inl (hfield hfail hreads)

/-- A sketch that steps a gasket that is never made. -/
def idleGasket : Sketch where
  name := "idle"
  steps := [
    { call := "Apol", bind := some "g", times := 0 },
    { call := "Apol.next", args := [.binding "g"] }]

theorem run_of_check_idleGasket :
    (∀ d ∈ idleGasket.check, d.severity ≠ .error) ∧ ∃ e, idleGasket.run .skip = .error e ∧
      ∀ owner field known, e ≠ .unknownField owner field known := by
  have hs : ∀ d ∈ idleGasket.check, d.severity ≠ .error := by decide
  have hreads : idleGasket.ReadsIdle 1 :=
    ⟨_, rfl, by decide, _, List.mem_cons_self, "g", _, rfl, rfl, rfl⟩
  exact ⟨hs, (run_of_check .skip idleGasket hs).1.2 ⟨1, _, hreads, rfl⟩⟩

end Sketch

end Easel
