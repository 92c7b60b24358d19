import Easel.Proofs.Sketch.Generations
import Easel.Proofs.Sketch.Lifetimes

/-!
# What a warning of deep generators says

The check warns that a generator reaches a generation, and means by it how often the name of the
generator has been stepped since it was bound. A gasket that is seeded again starts at zero, which
the check does not follow. So there are two counts (`stepped`), which start at different steps: the
check has the one, and the object has the other. They differ if the gasket was seeded again after
it had been stepped.
-/

namespace Easel

namespace Sketch

variable {snapshots : Snapshots} {s : Sketch} {step : Step} {name : String} {i j k n : Nat}
  {r r' : Run}

/-! ## Two counts -/

/-- The name that a step reads as its first argument, if it reads one. -/
def receiver? (s : Step) : Option String :=
  match s.args.head? with
  | some (.binding name) => some name
  | _ => none

theorem receiver?_eq_some :
    receiver? step = some name ↔ step.args.head? = some (.binding name) := by
  unfold receiver?
  split
  case h_1 other hother => simp [hother]
  case h_2 hother => simpa using hother name

theorem advances_eq_some :
    advances step = some name ↔ ".next".toList.isSuffixOf step.call.toList = true ∧
      step.args.head? = some (.binding name) := by
  rw [← receiver?_eq_some]
  exact Option.ite_none_right_eq_some

/-- The name whose gasket a step seeds, if it does and runs at all. -/
def seeds (s : Step) : Option String :=
  if s.call = "Apol.enclosing" ∧ s.times ≠ 0 then receiver? s else none

theorem seeds_eq_some :
    seeds step = some name ↔ (step.call = "Apol.enclosing" ∧ step.times ≠ 0) ∧
      step.args.head? = some (.binding name) := by
  rw [← receiver?_eq_some]
  exact Option.ite_none_right_eq_some

/-- No step steps a generator and seeds a gasket. -/
theorem seeds_of_advances (h : advances step = some name) : seeds step = none := by
  obtain ⟨hnext, -⟩ := advances_eq_some.1 h
  refine if_neg ?_
  rintro ⟨hcall, -⟩
  rw [hcall] at hnext
  exact absurd hnext (by decide)

/-- The step binds the name. -/
def binds (name : String) (step : Step) : Bool := step.bind == some name

/-- The step binds the name, or seeds the gasket that it is bound to. -/
def renews (name : String) (step : Step) : Bool := binds name step || seeds step == some name

/-- How often the name has been stepped before the step at `k`, counted from zero at each step that
`starts`. -/
def stepped (s : Sketch) (name : String) (starts : Step → Bool) (k : Nat) : Nat :=
  (s.steps.take k).foldl (fun n step =>
    if starts step then 0 else if advances step = some name then n + step.times else n) 0

theorem stepped_succ {starts : Step → Bool} (h : s.steps[k]? = some step) :
    s.stepped name starts (k + 1) = if starts step then 0 else
      if advances step = some name then s.stepped name starts k + step.times
      else s.stepped name starts k :=
  foldl_take_succ _ _ h

theorem stepped_of_none {starts : Step → Bool} (h : s.steps[k]? = none) :
    s.stepped name starts (k + 1) = s.stepped name starts k := by
  rw [stepped, take_succ_of_none h, stepped]

/-- The check counts from the step that binds a name, up to the number at which it stops. -/
theorem generations_depthsBefore (s : Sketch) (name : String) (k : Nat) :
    (depthOf (s.depthsBefore k) name).generations =
      min (s.stepped name (binds name) k) maxGenerations := by
  induction k with
  | zero => rfl
  | succ k ih =>
    cases hstep : s.steps[k]? with
    | none => rw [depthsBefore_of_none hstep, stepped_of_none hstep, ih]
    | some step =>
      rw [depthsBefore_succ hstep, stepped_succ hstep, generations_countStep, ih]
      simp only [binds, beq_iff_eq]
      split
      · rw [Nat.zero_min]
      · split <;> omega

/-- What a warning says: the name is stepped by this step, and how often it has been since it was
bound. -/
theorem deepGeneration_mem
    (h : ⟨.deepGeneration name n deepGenerations, some i⟩ ∈ s.checkGenerationDepth) :
    ∃ step, s.steps[i]? = some step ∧ advances step = some name ∧ step.times ≠ 0 ∧
      n = min (s.stepped name (binds name) i + step.times) maxGenerations := by
  obtain ⟨k, step, hstep, finding, hfound, hd⟩ := mem_checkGenerationDepth.1 h
  cases hd
  have hcount := generations_depthsBefore s name i
  unfold stepDepths at hfound
  split at hfound
  case h_1 => cases hfound
  case h_2 other hname =>
    dsimp only at hfound
    split at hfound
    case isFalse => cases hfound
    case isTrue hdeep =>
      cases List.mem_singleton.1 hfound
      refine ⟨step, hstep, hname, fun hzero => ?_, by omega⟩
      -- A step that does not run passes no limit: it would have been passed before.
      have hpassed : deepGenerations < (depthOf (s.depthsBefore i) name).generations := by
        have hlt := hdeep.1
        rw [hzero] at hlt
        omega
      rw [(Warned.before s i).deep name hpassed] at hdeep
      cases hdeep.2

/-! ## The generation of an object -/

/-- What is registered and counted as stepping a generator lets it grow. -/
theorem growing_of_next : ∀ f ∈ Natives.registry.natives,
    ".next".toList.isSuffixOf f.name.toList = true → f.name ∈ Natives.growing := by
  decide

theorem growing_of_advances {f : Native} (hf : Natives.registry.get? step.call = some f)
    (h : advances step = some name) : step.call ∈ Natives.growing := by
  obtain ⟨hmem, hname⟩ := Registry.get?_some hf
  rw [← hname]
  refine growing_of_next f hmem ?_
  rw [hname]
  exact (advances_eq_some.1 h).1

/-- A step changes the generation of what a name is bound to as its call and first argument say. -/
theorem generation_step {depths : List Depth} {index : Nat} {q : ObjectRef}
    (hcounted : Run.Counted depths r) (hr : r.Tidy)
    (hstep : Run.step snapshots index step r = .ok r')
    (hbound : r.bindings.get? name = some (.object q)) :
    r'.machine.heap.generation q = if seeds step = some name then 0 else
      if advances step = some name then r.machine.heap.generation q + step.times
      else r.machine.heap.generation q := by
  obtain ⟨f, -, -, hf, -⟩ := Run.step_eq_ok hstep
  rw [(Run.course_step hr hstep).generation hr (hr.lt_size hbound), Call.foldl_ages_replicate]
  by_cases hgrown :
      Call.grown? ⟨index, step.call, step.args.map (Run.valueOf r.bindings)⟩ = some q
  · obtain ⟨hgrow, hhead⟩ := (hcounted.grown?_eq_some hbound).1 hgrown
    by_cases hcall : step.call = "Apol.enclosing"
    · by_cases htimes : step.times = 0
      · have hseeds : seeds step ≠ some name := fun h => (seeds_eq_some.1 h).1.2 htimes
        simp only [hseeds, htimes, if_false, Nat.add_zero, ite_self, ne_eq, not_true, and_false]
      · have hseeds := seeds_eq_some.2 ⟨⟨hcall, htimes⟩, hhead⟩
        rw [if_pos ⟨hgrown, htimes⟩, if_pos hcall, if_pos hseeds]
    · have hname := Run.advances_of_growing hgrow hcall hhead
      simp only [hgrown, hcall, seeds_of_advances hname, hname, true_and, reduceCtorEq, if_true,
        if_false]
      split <;> omega
  · have hgrows (hgrow : step.call ∈ Natives.growing)
        (hhead : step.args.head? = some (.binding name)) : False :=
      hgrown ((hcounted.grown?_eq_some hbound).2 ⟨hgrow, hhead⟩)
    have hseeds : seeds step ≠ some name := fun h => by
      obtain ⟨⟨hcall, -⟩, hhead⟩ := seeds_eq_some.1 h
      exact hgrows (hcall ▸ List.mem_cons_self) hhead
    have hname : advances step ≠ some name := fun h =>
      hgrows (growing_of_advances hf h) (advances_eq_some.1 h).2
    rw [if_neg fun h => hgrown h.1, if_neg hseeds, if_neg hname]

/-- An object that a step binds has made no generations. -/
theorem generation_of_bind {index : Nat} {q : ObjectRef} (hr : r.Tidy)
    (hstep : Run.step snapshots index step r = .ok r') (hbind : step.bind = some name)
    (hbound : r'.bindings.get? name = some (.object q)) : r'.machine.heap.generation q = 0 := by
  obtain ⟨f, answer, r₁, hf, -, hcalls, rfl⟩ := Run.step_eq_ok hstep
  simp only [Run.settle, hbind, Bindings.get?_insert_self, Option.some.injEq] at hbound ⊢
  exact (Run.callTimes_getD_fresh (Registry.get?_some hf).1 hr (hr.holds_values step.args) hcalls
    hbound).2

/-- **What a name is bound to has made as many generations as it was stepped** since it was bound
or, if it is a gasket, seeded again. -/
theorem Reaches.generation {q : ObjectRef} (h : s.Reaches snapshots k r)
    (hbound : r.bindings.get? name = some (.object q)) :
    r.machine.heap.generation q = s.stepped name (renews name) k := by
  induction k generalizing r with
  | zero =>
    cases h
    cases hbound
  | succ k ih =>
    cases hstep : s.steps[k]? with
    | none =>
      rw [stepped_of_none hstep]
      exact ih (h.of_none hstep) hbound
    | some step =>
      obtain ⟨start, hstart, hrun⟩ := h.of_succ hstep
      rw [stepped_succ hstep, renews, binds]
      by_cases hbind : step.bind = some name
      · rw [generation_of_bind hstart.tidy hrun hbind hbound, hbind, beq_self_eq_true, Bool.true_or,
          if_pos rfl]
      · rw [Run.get?_step hrun hbind] at hbound
        rw [generation_step hstart.counted hstart.tidy hrun hbound, ih hstart hbound]
        simp only [Bool.or_eq_true, beq_iff_eq, hbind, false_or]

/-- A step that steps a name, and runs, finds a generator bound to it. -/
theorem exists_object_of_advances {index : Nat} (hr : r.Tidy)
    (hstep : Run.step snapshots index step r = .ok r') (hname : advances step = some name)
    (htimes : step.times ≠ 0) : ∃ q o, r.bindings.get? name = some (.object q) ∧
      r'.machine.heap.get? q = some o := by
  obtain ⟨f, answer, r₁, hf, -, hcalls, -⟩ := Run.step_eq_ok hstep
  obtain ⟨hmem, hfname⟩ := Registry.get?_some hf
  obtain ⟨m, hm⟩ := Nat.exists_eq_succ_of_ne_zero htimes
  rw [hm] at hcalls
  obtain ⟨last, before, hothers, honce⟩ := Run.callTimes_succ_eq_ok.1 hcalls
  obtain ⟨hcourse, -⟩ :=
    Run.course_callTimes hmem hr (hr.holds_values step.args) (by simp) hothers
  have hcalled := Run.called_of_callOnce hmem (hcourse.tidy hr).1.settled honce
  have hgrow : f.name ∈ Natives.growing := hfname ▸ growing_of_advances hf hname
  cases hcalled with
  | quiet _ _ hquiet => exact absurd hgrow hquiet
  | draw _ hquiet => exact absurd hgrow hquiet
  | @grow q _ o _ _ hreceiver =>
    rw [List.head?_map, (advances_eq_some.1 hname).2, Option.map_some] at hreceiver
    obtain ⟨_, hbinding, hbound⟩ := Run.valueOf_eq_object (Option.some.inj hreceiver)
    cases hbinding
    have hlt := Nat.lt_of_lt_of_le (hr.lt_size hbound) ((Run.course_step hr hstep).size_le hr)
    obtain ⟨o', ho'⟩ := Heap.exists_get?_of_lt hlt
    exact ⟨q, o', hbound, ho'⟩

/-! ## Warnings -/

/-- The gasket that the name is bound to when the step at `i` starts was seeded after it had been
stepped. -/
def Reseeded (s : Sketch) (name : String) (i : Nat) : Prop :=
  ∃ j < i, (∃ step, s.steps[j]? = some step ∧ seeds step = some name) ∧
    0 < s.stepped name (binds name) j ∧ ∀ k, j ≤ k → k < i → ¬ s.BindsAt name k

theorem reseeded_succ :
    s.Reseeded name (k + 1) ↔ ¬ s.BindsAt name k ∧ (s.Reseeded name k ∨
      (∃ step, s.steps[k]? = some step ∧ seeds step = some name) ∧
        0 < s.stepped name (binds name) k) := by
  constructor
  · rintro ⟨j, hj, hseeds, hpos, hkept⟩
    refine ⟨hkept k (Nat.le_of_lt_succ hj) (Nat.lt_succ_self k), ?_⟩
    rcases Nat.lt_succ_iff_lt_or_eq.1 hj with hlt | rfl
    · exact .inl ⟨j, hlt, hseeds, hpos, fun l hl hk => hkept l hl (Nat.lt_succ_of_lt hk)⟩
    · exact .inr ⟨hseeds, hpos⟩
  · rintro ⟨hnot, ⟨j, hj, hseeds, hpos, hkept⟩ | ⟨hseeds, hpos⟩⟩
    · refine ⟨j, Nat.lt_succ_of_lt hj, hseeds, hpos, fun l hl hk => ?_⟩
      rcases Nat.lt_succ_iff_lt_or_eq.1 hk with hlt | rfl
      · exact hkept l hl hlt
      · exact hnot
    · refine ⟨k, Nat.lt_succ_self k, hseeds, hpos, fun l hl hk => ?_⟩
      rwa [Nat.le_antisymm (Nat.le_of_lt_succ hk) hl]

theorem stepped_renews_le (s : Sketch) (name : String) (k : Nat) :
    s.stepped name (renews name) k ≤ s.stepped name (binds name) k := by
  induction k with
  | zero => exact Nat.le_refl 0
  | succ k ih =>
    cases hstep : s.steps[k]? with
    | none => rwa [stepped_of_none hstep, stepped_of_none hstep]
    | some step =>
      rw [stepped_succ hstep, stepped_succ hstep, renews]
      cases binds name step with
      | true => exact Nat.le_refl 0
      | false =>
        rw [Bool.false_or, if_neg Bool.false_ne_true]
        split
        · exact Nat.zero_le _
        · split <;> omega

/-- The two counts differ exactly if a gasket was seeded after it had been stepped. -/
theorem stepped_renews_lt_iff :
    s.stepped name (renews name) k < s.stepped name (binds name) k ↔ s.Reseeded name k := by
  induction k with
  | zero =>
    refine ⟨fun h => absurd h (Nat.lt_irrefl 0), ?_⟩
    rintro ⟨j, hj, -⟩
    exact absurd hj (Nat.not_lt_zero j)
  | succ k ih =>
    rw [reseeded_succ, ← ih]
    cases hstep : s.steps[k]? with
    | none =>
      rw [stepped_of_none hstep, stepped_of_none hstep]
      simp [BindsAt, hstep]
    | some step =>
      rw [stepped_succ hstep, stepped_succ hstep, renews]
      have hbinds : s.BindsAt name k ↔ binds name step = true := by
        simp [BindsAt, hstep, binds]
      rw [hbinds]
      cases binds name step with
      | true => simp
      | false =>
        by_cases hseeds : seeds step = some name
        · have hname : advances step ≠ some name := fun h => by
            rw [seeds_of_advances h] at hseeds
            cases hseeds
          simp only [hseeds, hname, Bool.or_true, beq_self_eq_true, if_true, if_false,
            Bool.false_eq_true, not_false_eq_true, true_and, Option.some.injEq, exists_eq_left']
          omega
        · by_cases hname : advances step = some name
          · simp [hseeds, hname]
          · simp [hseeds, hname]

/-- **A warning of a deep generator counts what the gasket has forgotten.** When a run has completed
the step that a warning is about, the object that the name was bound to has made as many generations
as the name was stepped since it was bound or the gasket was seeded, and the warning says how often
it was stepped since it was bound, up to the number at which the check stops. Below this number the
warning is right if and only if the gasket was not seeded again after it had been stepped. -/
theorem deep_warning_counts
    (hwarned : ⟨.deepGeneration name n deepGenerations, some i⟩ ∈ s.checkGenerationDepth)
    (h : s.Reaches snapshots i r) (h' : s.Reaches snapshots (i + 1) r') :
    ∃ step q o, s.steps[i]? = some step ∧ r.bindings.get? name = some (.object q) ∧
      r'.machine.heap.get? q = some o ∧
      o.generation = s.stepped name (renews name) i + step.times ∧
      n = min (s.stepped name (binds name) i + step.times) maxGenerations ∧
      (n < maxGenerations → (o.generation = n ↔ ¬ s.Reseeded name i)) := by
  obtain ⟨step, hstep, hname, htimes, hn⟩ := deepGeneration_mem hwarned
  obtain ⟨before, hbefore, hrun⟩ := h'.of_succ hstep
  cases h.symm.trans hbefore
  obtain ⟨q, o, hbound, ho⟩ := exists_object_of_advances h.tidy hrun hname htimes
  have hgeneration : o.generation = s.stepped name (renews name) i + step.times := by
    rw [← Heap.generation_of_get? ho, generation_step h.counted h.tidy hrun hbound,
      seeds_of_advances hname, if_neg (by simp), if_pos hname, h.generation hbound]
  refine ⟨step, q, o, hstep, hbound, ho, hgeneration, hn, fun hlt => ?_⟩
  have hle := stepped_renews_le s name i
  rw [← stepped_renews_lt_iff, hgeneration]
  omega

/-- A sketch that steps a gasket six times, seeds it again and steps it six more times. -/
def reseeding : Sketch where
  name := "reseeding"
  steps := [
    { call := "Apol", bind := some "g" },
    { call := "Apol.enclosing", args := [.binding "g", .number 100] },
    { call := "Apol.next", args := [.binding "g"], times := 6 },
    { call := "Apol.enclosing", args := [.binding "g", .number 50] },
    { call := "Apol.next", args := [.binding "g"], times := 6 }]

theorem reseeding_warned :
    ⟨.deepGeneration "g" 12 deepGenerations, some 4⟩ ∈ reseeding.checkGenerationDepth := by
  decide

theorem deep_warning_counts_reseeding : ∃ r r' q o, reseeding.Reaches .skip 4 r ∧
    reseeding.Reaches .skip 5 r' ∧ r.bindings.get? "g" = some (.object q) ∧
    r'.machine.heap.get? q = some o ∧ o.generation = 6 := by
  obtain ⟨r, r', h, h'⟩ : ∃ r r', reseeding.Reaches .skip 4 r ∧ reseeding.Reaches .skip 5 r' :=
    ⟨_, _, rfl, rfl⟩
  obtain ⟨step, q, o, hstep, hbound, ho, hgeneration, -⟩ :=
    deep_warning_counts reseeding_warned h h'
  cases hstep
  exact ⟨r, r', q, o, h, h', hbound, ho, hgeneration⟩

/-- A warning of a sketch without errors may say more generations than there are. -/
theorem deep_warning_wrong :
    ¬∀ (s : Sketch) (snapshots : Snapshots) (i : Nat) (name : String) (n : Nat) (r r' : Run)
      (q : ObjectRef) (o : Object), (∀ d ∈ s.check, d.severity ≠ .error) →
      ⟨.deepGeneration name n deepGenerations, some i⟩ ∈ s.checkGenerationDepth →
      s.Reaches snapshots i r → s.Reaches snapshots (i + 1) r' →
      r.bindings.get? name = some (.object q) → r'.machine.heap.get? q = some o →
      o.generation = n := by
  intro h
  have hclean : ∀ d ∈ reseeding.check, d.severity ≠ .error := by decide
  obtain ⟨r, r', q, o, hr, hr', hbound, ho, hgeneration⟩ : ∃ r r' q o,
      reseeding.Reaches .skip 4 r ∧ reseeding.Reaches .skip 5 r' ∧
      r.bindings.get? "g" = some (.object q) ∧ r'.machine.heap.get? q = some o ∧
      o.generation = 6 := ⟨_, _, _, _, rfl, rfl, rfl, rfl, rfl⟩
  have heq := h reseeding .skip 4 "g" 12 r r' q o hclean reseeding_warned hr hr' hbound ho
  rw [hgeneration] at heq
  exact absurd heq (by decide)

end Sketch

end Easel
