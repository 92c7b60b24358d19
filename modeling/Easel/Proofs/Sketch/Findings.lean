import Easel.Proofs.Script.Resolution
import Easel.Sketch.Check

/-!
# What the check of calls finds

The check follows the steps with what it knows of the types of the bindings. What it finds in a
step depends on the steps before through these types only, and nothing else that it finds is an
error.
-/

namespace Easel

namespace Sketch

variable {types : TypeBindings} {args : List ArgType} {call : String} {f : Native}
  {ts : List ValueType} {step : Step} {finding : Finding}

/-! ## One step -/

attribute [local simp] knownTypes checkCall

theorem knownTypes_eq_some : knownTypes args = some ts ↔ args = ts.map ArgType.known := by
  induction args generalizing ts with
  | nil => cases ts <;> simp
  | cons a args ih =>
    cases a with
    | known t =>
      cases ts with
      | nil => simp
      | cons t' ts =>
        simp only [knownTypes, Option.map_eq_some_iff, List.cons.injEq, List.map_cons, ih,
          ArgType.known.injEq]
        constructor
        · rintro ⟨rest, rfl, rfl, rfl⟩
          exact ⟨rfl, rfl⟩
        · rintro ⟨rfl, rfl⟩
          exact ⟨ts, rfl, rfl, rfl⟩
    | _ => cases ts <;> simp

theorem knownTypes_isSome (h : ∀ a ∈ args, ∃ t, a = .known t) :
    ∃ ts, knownTypes args = some ts := by
  induction args with
  | nil => exact ⟨[], rfl⟩
  | cons a args ih =>
    obtain ⟨t, rfl⟩ := h a List.mem_cons_self
    obtain ⟨ts, hts⟩ := ih fun a ha => h a (List.mem_cons_of_mem _ ha)
    exact ⟨t :: ts, by simp only [knownTypes, hts, Option.map_some]⟩

theorem checkCall_unknown (h : Natives.registry.get? call = none) :
    checkCall call args =
      ([.unknownCallable call (Natives.registry.suggest? call)], none) := by
  simp only [checkCall, h]

theorem checkCall_unclear (hf : Natives.registry.get? call = some f)
    (hargs : knownTypes args = none) : checkCall call args = ([], none) := by
  simp only [checkCall, hf, hargs]

/-- A call is accepted if it can be resolved. -/
theorem checkCall_accepted (hf : Natives.registry.get? call = some f)
    (hargs : knownTypes args = some ts) {chosen : Resolved} (hr : f.resolve ts = .ok chosen) :
    checkCall call args = ([], some chosen.signature.result) := by
  have hfind : (f.overloads.signatures.find? fun s => s.accepts ts) = some chosen.signature := by
    rw [Overloads.resolve_find? f.name]
    exact congrArg (fun r => r.toOption.map Resolved.signature) hr
  simp only [checkCall, hf, hargs, hfind]

theorem checkCall_refused (hf : Natives.registry.get? call = some f)
    (hargs : knownTypes args = some ts) {e : Error} (hr : f.resolve ts = .error e) :
    checkCall call args = ([.typeMismatch call ts f.overloads.signatures], none) := by
  have hfind : (f.overloads.signatures.find? fun s => s.accepts ts) = none := by
    rw [Overloads.resolve_find? f.name]
    exact congrArg (fun r => r.toOption.map Resolved.signature) hr
  simp only [checkCall, hf, hargs, hfind]

/-- The call of a step as the check sees it. -/
def seenCall (types : TypeBindings) (step : Step) : List Finding × Option ValueType :=
  checkCall step.call (step.args.map (argType types))

/-- All that can be wrong with the call of a registered native is the types of its arguments. -/
theorem mem_seenCall (hf : Natives.registry.get? step.call = some f)
    (h : finding ∈ (seenCall types step).1) :
    ∃ ts, finding = .typeMismatch step.call ts f.overloads.signatures := by
  rw [seenCall] at h
  cases hts : knownTypes (step.args.map (argType types)) with
  | none =>
    rw [checkCall_unclear hf hts] at h
    cases h
  | some ts =>
    cases hr : f.resolve ts with
    | ok chosen =>
      rw [checkCall_accepted hf hts hr] at h
      cases h
    | error e =>
      rw [checkCall_refused hf hts hr] at h
      exact ⟨ts, List.mem_singleton.1 h⟩

theorem checkStep_types (types : TypeBindings) (step : Step) :
    (checkStep types step).2 = match step.bind with
      | some name => (name, (seenCall types step).2) :: types
      | none => types := by
  simp only [checkStep, seenCall]
  cases step.bind <;> rfl

theorem mem_filterMap_argType {undefined : ArgType → Option Finding}
    (h : ∀ t, undefined t = some finding ↔
      ∃ name, t = .undefined name ∧ finding = .undefinedBinding name) :
    finding ∈ (step.args.map (argType types)).filterMap undefined ↔
      ∃ a ∈ step.args, ∃ name, argType types a = .undefined name ∧
        finding = .undefinedBinding name := by
  rw [List.mem_filterMap]
  constructor
  · rintro ⟨t, ht, hsome⟩
    obtain ⟨a, ha, rfl⟩ := List.mem_map.1 ht
    exact ⟨a, ha, (h _).1 hsome⟩
  · rintro ⟨a, ha, hname⟩
    exact ⟨_, List.mem_map_of_mem ha, (h _).2 hname⟩

/-- What is found in a step: names that are not bound, what is wrong with the call, and a binding
of nothing. -/
theorem mem_checkStep_iff :
    finding ∈ (checkStep types step).1 ↔
      (∃ a ∈ step.args, ∃ name, argType types a = .undefined name ∧
        finding = .undefinedBinding name) ∨
      finding ∈ (seenCall types step).1 ∨
      ∃ name, step.bind = some name ∧ (seenCall types step).2 = some .nothing ∧
        finding = .bindsNothing step.call name := by
  unfold checkStep seenCall
  cases step.bind with
  | none =>
    rw [List.mem_append, mem_filterMap_argType fun t => ?_]
    · simp only [reduceCtorEq, false_and, exists_false, or_false]
    · cases t <;> simp [eq_comm]
  | some name =>
    rw [List.mem_append, List.mem_append, mem_filterMap_argType fun t => ?_, or_assoc]
    · simp only [List.mem_ite_nil_right, List.mem_singleton, Option.some.injEq, exists_eq_left']
    · cases t <;> simp [eq_comm]

/-- The errors in a step are names that are not bound and what is wrong with the call. -/
theorem mem_checkStep (hf : finding.severity = .error) :
    finding ∈ (checkStep types step).1 ↔
      (∃ a ∈ step.args, ∃ name, argType types a = .undefined name ∧
        finding = .undefinedBinding name) ∨ finding ∈ (seenCall types step).1 := by
  rw [mem_checkStep_iff]
  refine or_congr_right (or_iff_left ?_)
  rintro ⟨name, -, -, rfl⟩
  cases hf

/-! ## All steps -/

/-- The findings of a check that goes through the steps, the first of which has this index, and
carries along what it knows. -/
def walk {σ : Type} (visit : σ → Step → List Finding × σ) (known : σ) :
    Nat → List Step → List Diagnostic
  | _, [] => []
  | index, s :: rest => (visit known s).1.map (fun f => ⟨f, some index⟩) ++
      walk visit (visit known s).2 (index + 1) rest

/-- What such a check finds at a step depends on the steps before through what it knows then. -/
theorem mem_walk {σ : Type} {visit : σ → Step → List Finding × σ} {known : σ} {index : Nat}
    {steps : List Step} {d : Diagnostic} :
    d ∈ walk visit known index steps ↔
      ∃ k step, steps[k]? = some step ∧
        ∃ finding ∈ (visit ((steps.take k).foldl (fun known s => (visit known s).2) known) step).1,
          d = ⟨finding, some (index + k)⟩ := by
  induction steps generalizing known index with
  | nil => simp [walk]
  | cons first rest ih =>
    simp only [walk, List.mem_append, List.mem_map, ih]
    constructor
    · rintro (⟨finding, hfound, rfl⟩ | ⟨k, step, hstep, finding, hfound, rfl⟩)
      · exact ⟨0, first, rfl, finding, hfound, rfl⟩
      · exact ⟨k + 1, step, hstep, finding, hfound, by rw [Nat.add_right_comm, Nat.add_assoc]⟩
    · rintro ⟨k, step, hstep, finding, hfound, rfl⟩
      cases k with
      | zero =>
        cases hstep
        exact .inl ⟨finding, hfound, rfl⟩
      | succ k =>
        exact .inr ⟨k, step, hstep, finding, hfound, by rw [Nat.add_right_comm, Nat.add_assoc]⟩

/-- What is known of the bindings after these steps. -/
def typesAfter (types : TypeBindings) (steps : List Step) : TypeBindings :=
  steps.foldl (fun types step => (checkStep types step).2) types

theorem checkSteps_eq_walk (types : TypeBindings) (index : Nat) (steps : List Step) :
    checkSteps types index steps = walk checkStep types index steps := by
  induction steps generalizing types index with
  | nil => rfl
  | cons s rest ih => simp only [checkSteps, walk, ih]

theorem mem_checkSteps {index : Nat} {steps : List Step} {d : Diagnostic} :
    d ∈ checkSteps types index steps ↔
      ∃ k step, steps[k]? = some step ∧
        ∃ finding ∈ (checkStep (typesAfter types (steps.take k)) step).1,
          d = ⟨finding, some (index + k)⟩ := by
  rw [checkSteps_eq_walk]
  exact mem_walk

/-- What is known of the bindings before the step at `k`. -/
def typesBefore (s : Sketch) (k : Nat) : TypeBindings := typesAfter [] (s.steps.take k)

/-- What goes through the steps before the next one goes through this step last. -/
theorem foldl_take_succ {σ : Type} (f : σ → Step → σ) (init : σ) {s : Sketch} {k : Nat}
    (h : s.steps[k]? = some step) :
    (s.steps.take (k + 1)).foldl f init = f ((s.steps.take k).foldl f init) step := by
  rw [List.take_add_one, h, Option.toList_some, List.foldl_append]
  rfl

theorem typesBefore_succ {s : Sketch} {k : Nat} (h : s.steps[k]? = some step) :
    s.typesBefore (k + 1) = (checkStep (s.typesBefore k) step).2 :=
  foldl_take_succ _ _ h

/-- The errors that the check of calls reports for the step at `k`. -/
def errorsAt (s : Sketch) (k : Nat) : List Finding :=
  (s.checkCalls.filter fun d => d.severity == .error && d.step == some k).map Diagnostic.finding

/-- Whatever is an error in the check of calls is one in some step. -/
theorem error_mem_checkCalls {s : Sketch} {d : Diagnostic} (hd : d.severity = .error) :
    d ∈ s.checkCalls ↔ ∃ k step, s.steps[k]? = some step ∧
      ∃ finding ∈ (checkStep (s.typesBefore k) step).1, d = ⟨finding, some k⟩ := by
  have hunused : d ∉ s.checkUnused := by
    simp only [checkUnused, List.mem_filterMap, not_exists, not_and]
    rintro ⟨step, index⟩ -
    dsimp only
    split
    · split
      · rintro h
        cases h
        cases hd
      · simp
    · simp
  simp only [checkCalls, List.mem_append, hunused, or_false, mem_checkSteps, Nat.zero_add]
  rfl

theorem mem_errorsAt {s : Sketch} {k : Nat} (h : s.steps[k]? = some step) :
    finding ∈ s.errorsAt k ↔
      finding.severity = .error ∧ finding ∈ (checkStep (s.typesBefore k) step).1 := by
  simp only [errorsAt, List.mem_map, List.mem_filter, Bool.and_eq_true, beq_iff_eq]
  constructor
  · rintro ⟨d, ⟨hd, herror, hk⟩, rfl⟩
    obtain ⟨k', step', hstep, finding, hfound, rfl⟩ := (error_mem_checkCalls herror).1 hd
    cases hk
    cases h.symm.trans hstep
    exact ⟨herror, hfound⟩
  · rintro ⟨herror, hfound⟩
    have hd : (Diagnostic.mk finding (some k)).severity = .error := herror
    exact ⟨_, ⟨(error_mem_checkCalls hd).2 ⟨k, step, h, finding, hfound, rfl⟩, hd, rfl⟩, rfl⟩

end Sketch

end Easel
