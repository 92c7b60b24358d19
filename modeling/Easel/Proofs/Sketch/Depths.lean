import Easel.Proofs.Sketch.Findings

/-!
# What the check of generations finds

The check counts, name by name, how often the generator bound to a name is stepped, and warns when a
count first passes the limit. `Warned` is what holds of its counts after every step: whatever has
passed the limit has been warned of.
-/

namespace Easel

namespace Sketch

variable {depths : List Depth} {step : Step} {name other : String} {s : Sketch} {k : Nat}

/-! ## The counts of names -/

@[simp] theorem depthOf_cons_self (d : Depth) (depths : List Depth) :
    depthOf (d :: depths) d.name = d := by
  simp [depthOf]

theorem depthOf_cons_of_ne {d : Depth} (h : other ≠ d.name) (depths : List Depth) :
    depthOf (d :: depths) other = depthOf depths other := by
  simp [depthOf, Ne.symm h]

@[simp] theorem depthOf_forget_self (depths : List Depth) (name : String) :
    depthOf (forget depths name) name = ⟨name, 0, false⟩ := by
  have hnone : (forget depths name).find? (fun d => d.name == name) = none := by
    simp [forget]
  rw [depthOf, hnone, Option.getD_none]

theorem depthOf_forget_of_ne (h : other ≠ name) (depths : List Depth) :
    depthOf (forget depths name) other = depthOf depths other := by
  have hfind : (forget depths name).find? (fun d => d.name == other) =
      depths.find? fun d => d.name == other := by
    rw [forget, List.find?_filter]
    congr 1
    funext d
    by_cases hd : d.name = other
    · simp [hd, h]
    · simp [hd]
  rw [depthOf, depthOf, hfind]

/-! ## One step -/

/-- The count of the name that a step advances, which is flagged once it has passed the limit. -/
theorem depthOf_stepDepths_self (h : advances step = some name) :
    depthOf (stepDepths depths step).2 name =
      let generations := min ((depthOf depths name).generations + step.times) maxGenerations
      ⟨name, generations,
        (depthOf depths name).flagged || decide (deepGenerations < generations)⟩ := by
  simp only [stepDepths, h]
  split
  case isTrue hdeep =>
    refine (depthOf_cons_self _ _).trans ?_
    rw [decide_eq_true hdeep.1, Bool.or_true]
  case isFalse hdeep =>
    refine (depthOf_cons_self _ _).trans ?_
    cases hflagged : (depthOf depths name).flagged with
    | true => rw [Bool.true_or]
    | false => rw [decide_eq_false fun hlt => hdeep ⟨hlt, hflagged⟩, Bool.or_false]

/-- A step leaves the counts of all other names alone. -/
theorem depthOf_stepDepths_of_ne (h : advances step ≠ some other) :
    depthOf (stepDepths depths step).2 other = depthOf depths other := by
  unfold stepDepths
  cases hname : advances step with
  | none => rfl
  | some name =>
    have hne : other ≠ name := fun e => h (hname.trans (congrArg some e.symm))
    dsimp only
    split
    · exact (depthOf_cons_of_ne hne _).trans (depthOf_forget_of_ne hne depths)
    · exact (depthOf_cons_of_ne hne _).trans (depthOf_forget_of_ne hne depths)

/-- How a step counts for a name. -/
theorem generations_stepDepths (depths : List Depth) (step : Step) (name : String) :
    (depthOf (stepDepths depths step).2 name).generations =
      if advances step = some name then
        min ((depthOf depths name).generations + step.times) maxGenerations
      else (depthOf depths name).generations := by
  split
  case isTrue h => rw [depthOf_stepDepths_self h]
  case isFalse h => rw [depthOf_stepDepths_of_ne h]

/-- A name is flagged at the step that the warning is about. -/
theorem stepDepths_flagged (h : (depthOf (stepDepths depths step).2 name).flagged = true)
    (hbefore : (depthOf depths name).flagged = false) :
    ∃ n, .deepGeneration name n deepGenerations ∈ (stepDepths depths step).1 := by
  by_cases hname : advances step = some name
  · rw [depthOf_stepDepths_self hname] at h
    have hdeep : deepGenerations <
        min ((depthOf depths name).generations + step.times) maxGenerations := by
      simpa [hbefore] using h
    refine ⟨min ((depthOf depths name).generations + step.times) maxGenerations, ?_⟩
    simp only [stepDepths, hname, if_pos (And.intro hdeep hbefore), List.mem_singleton]
  · rw [depthOf_stepDepths_of_ne hname, hbefore] at h
    cases h

/-! ## All steps -/

/-- Counts the generations of a step, and starts the name that it binds at zero. -/
def countStep (depths : List Depth) (step : Step) : List Finding × List Depth :=
  ((stepDepths depths step).1, match step.bind with
    | some name => forget (stepDepths depths step).2 name
    | none => (stepDepths depths step).2)

theorem generations_countStep (depths : List Depth) (step : Step) (name : String) :
    (depthOf (countStep depths step).2 name).generations =
      if step.bind = some name then 0 else
        if advances step = some name then
          min ((depthOf depths name).generations + step.times) maxGenerations
        else (depthOf depths name).generations := by
  rw [← generations_stepDepths]
  cases hbind : step.bind with
  | none => simp only [countStep, hbind, reduceCtorEq, if_false]
  | some other =>
    simp only [countStep, hbind, Option.some.injEq]
    split
    case isTrue h => rw [h, depthOf_forget_self]
    case isFalse h => rw [depthOf_forget_of_ne (Ne.symm h)]

/-- The counts before the step at `k`. -/
def depthsBefore (s : Sketch) (k : Nat) : List Depth :=
  (s.steps.take k).foldl (fun depths step => (countStep depths step).2) []

theorem depthsBefore_succ (h : s.steps[k]? = some step) :
    s.depthsBefore (k + 1) = (countStep (s.depthsBefore k) step).2 :=
  foldl_take_succ _ _ h

/-- Past the last step there is no other step. -/
theorem take_succ_of_none (h : s.steps[k]? = none) : s.steps.take (k + 1) = s.steps.take k := by
  rw [List.take_add_one, h, Option.toList_none, List.append_nil]

theorem depthsBefore_of_none (h : s.steps[k]? = none) :
    s.depthsBefore (k + 1) = s.depthsBefore k := by
  rw [depthsBefore, take_succ_of_none h, depthsBefore]

theorem checkDepths_eq_walk (depths : List Depth) (index : Nat) (steps : List Step) :
    checkDepths depths index steps = walk countStep depths index steps := by
  induction steps generalizing depths index with
  | nil => rfl
  | cons s rest ih =>
    cases hbind : s.bind <;> simp only [checkDepths, walk, ih, countStep, hbind]

theorem mem_checkGenerationDepth {d : Diagnostic} :
    d ∈ s.checkGenerationDepth ↔ ∃ k step, s.steps[k]? = some step ∧
      ∃ finding ∈ (stepDepths (s.depthsBefore k) step).1, d = ⟨finding, some k⟩ := by
  rw [checkGenerationDepth, checkDepths_eq_walk, mem_walk]
  simp only [Nat.zero_add]
  rfl

/-- What the counts know of the warnings before the step at `k`: a count past the limit is flagged,
and of a flagged name there is a warning. -/
structure Warned (s : Sketch) (k : Nat) (depths : List Depth) : Prop where
  deep : ∀ name, deepGenerations < (depthOf depths name).generations →
    (depthOf depths name).flagged = true
  flagged : ∀ name, (depthOf depths name).flagged = true →
    ∃ i < k, ∃ n, ⟨.deepGeneration name n deepGenerations, some i⟩ ∈ s.checkGenerationDepth

namespace Warned

theorem later (h : s.Warned k depths) : s.Warned (k + 1) depths := by
  refine ⟨h.deep, fun name hflagged => ?_⟩
  obtain ⟨i, hi, hwarning⟩ := h.flagged name hflagged
  exact ⟨i, by omega, hwarning⟩

theorem forget (h : s.Warned k depths) (name : String) : s.Warned k (forget depths name) := by
  refine ⟨fun other hdeep => ?_, fun other hflagged => ?_⟩ <;> by_cases hother : other = name
  · subst hother
    rw [depthOf_forget_self] at hdeep
    cases hdeep
  · rw [depthOf_forget_of_ne hother] at hdeep ⊢
    exact h.deep other hdeep
  · subst hother
    rw [depthOf_forget_self] at hflagged
    cases hflagged
  · rw [depthOf_forget_of_ne hother] at hflagged
    exact h.flagged other hflagged

/-- A step that passes the limit is the step of the warning. -/
theorem advance (hstep : s.steps[k]? = some step) (h : s.Warned k (s.depthsBefore k)) :
    s.Warned (k + 1) (stepDepths (s.depthsBefore k) step).2 := by
  refine ⟨fun name hdeep => ?_, fun name hflagged => ?_⟩
  · by_cases hname : advances step = some name
    · rw [depthOf_stepDepths_self hname] at hdeep ⊢
      simp only [decide_eq_true hdeep, Bool.or_true]
    · rw [depthOf_stepDepths_of_ne hname] at hdeep ⊢
      exact h.deep name hdeep
  · cases hbefore : (depthOf (s.depthsBefore k) name).flagged with
    | true =>
      obtain ⟨i, hi, hwarning⟩ := h.flagged name hbefore
      exact ⟨i, by omega, hwarning⟩
    | false =>
      obtain ⟨n, hn⟩ := stepDepths_flagged hflagged hbefore
      exact ⟨k, by omega, n, mem_checkGenerationDepth.2 ⟨k, step, hstep, _, hn, rfl⟩⟩

/-- **The check warns in time**: of what has passed the limit before a step it has warned before. -/
theorem before (s : Sketch) (k : Nat) : s.Warned k (s.depthsBefore k) := by
  induction k with
  | zero => exact ⟨fun _ h => (by cases h), fun _ h => (by cases h)⟩
  | succ k ih =>
    cases hstep : s.steps[k]? with
    | none =>
      rw [depthsBefore_of_none hstep]
      exact ih.later
    | some step =>
      have hnext := ih.advance hstep
      rw [depthsBefore_succ hstep, countStep]
      split
      · exact hnext.forget _
      · exact hnext

/-- Of a name whose count is past the limit there is a warning. -/
theorem reported (h : s.Warned k depths)
    (hdeep : deepGenerations < (depthOf depths name).generations) :
    ∃ i < k, ∃ n, ⟨.deepGeneration name n deepGenerations, some i⟩ ∈ s.checkGenerationDepth :=
  h.flagged name (h.deep name hdeep)

end Warned

end Sketch

end Easel
