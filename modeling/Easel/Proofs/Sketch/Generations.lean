import Easel.Proofs.Sketch.Depths
import Easel.Proofs.Sketch.Truncation

/-!
# How deep generators get

The check counts generations by names, and a run has them in objects. Both counts go together
because no object is bound to two names: a name is only ever bound to an object that a call has just
made. `Run.Counted` is that invariant; from it follows that the check misses no generator that gets
too deep.
-/

namespace Easel

open Sketch (Depth depthOf forget advances stepDepths countStep deepGenerations maxGenerations)

/-! ## The generations of an object -/

/-- How many generations a generator has made since it was seeded; other objects make none. -/
def Object.generation : Object → Nat
  | .apollonian g => g.generation
  | .sierpinski s => s.generation
  | .hexagons _ | .point _ | .circle _ => 0

theorem Object.Fresh.generation_eq {o : Object} (h : o.Fresh) : o.generation = 0 := by
  cases h <;> rfl

/-- What is enclosed starts afresh, and what grows otherwise is one generation further. -/
theorem Object.Grows.generation_eq {name : String} {o o' : Object} (h : o.Grows name o') :
    o'.generation = if name = "Apol.enclosing" then 0 else o.generation + 1 := by
  cases h <;> rfl

/-- The generations of the object that a reference stands for. -/
def Heap.generation (h : Heap) (q : ObjectRef) : Nat := ((h.get? q).map Object.generation).getD 0

theorem Heap.generation_of_get? {h : Heap} {q : ObjectRef} {o : Object} (ho : h.get? q = some o) :
    h.generation q = o.generation := by
  rw [generation, ho]
  rfl

theorem Heap.generation_congr {h h' : Heap} {q : ObjectRef} (hq : h'.get? q = h.get? q) :
    h'.generation q = h.generation q := by
  rw [generation, hq, generation]

namespace Call

variable {c : Call} {q : ObjectRef}

/-- The object that the call lets grow, if it does. -/
def grown? (c : Call) : Option ObjectRef :=
  if c.native ∈ Natives.growing then
    match c.args.head? with
    | some (.object q) => some q
    | _ => none
  else none

theorem grown?_eq_some :
    c.grown? = some q ↔ c.native ∈ Natives.growing ∧ c.args.head? = some (.object q) := by
  unfold grown?
  split
  case isTrue h =>
    split
    case h_1 p hp => simp [h, hp]
    case h_2 hp =>
      simp only [h, true_and, reduceCtorEq, false_iff]
      exact hp q
  case isFalse h => simp [h]

/-- The generations of the object `q` after the call, if there were `n` before. -/
def ages (c : Call) (q : ObjectRef) (n : Nat) : Nat :=
  if c.grown? = some q then if c.native = "Apol.enclosing" then 0 else n + 1 else n

/-- What a call that is made `m` times does to the generations of the object `q`. -/
theorem foldl_ages_replicate (c : Call) (q : ObjectRef) (m n : Nat) :
    (List.replicate m c).foldl (fun n c => c.ages q n) n =
      if c.grown? = some q ∧ m ≠ 0 then if c.native = "Apol.enclosing" then 0 else n + m else n := by
  induction m generalizing n with
  | zero => simp
  | succ m ih =>
    rw [List.replicate_succ, List.foldl_cons, ih, ages]
    by_cases hgrown : c.grown? = some q
    · by_cases hseeds : c.native = "Apol.enclosing"
      · simp [hgrown, hseeds]
      · simp only [hgrown, hseeds, true_and, if_true, if_false]
        split <;> simp <;> omega
    · simp [hgrown]

end Call

namespace Run

variable {snapshots : Snapshots} {index : Nat} {f : Native} {args : List Value} {name : String}
  {s : Step} {r r' : Run} {answer : Option Value} {log : List Call} {q : ObjectRef}
  {depths : List Depth}

/-! ## What calls do to generations -/

theorem generation_takeFrame (snapshots : Snapshots) (index : Nat) (r : Run)
    (hq : q.index < r.machine.heap.size) :
    (takeFrame snapshots index r).machine.heap.generation q = r.machine.heap.generation q := by
  rw [heap_takeFrame]
  exact Heap.generation_congr (Heap.get?_allocAll_of_lt _ _ hq)

theorem Called.size_le (hc : Called snapshots index name args r answer r') :
    r.machine.heap.size ≤ r'.machine.heap.size := by
  cases hc with
  | quiet os _ _ _ _ =>
    rw [Heap.size_allocAll]
    omega
  | draw =>
    rw [size_takeFrame]
    exact Nat.le_add_right _ _
  | grow o =>
    rw [size_takeFrame, Heap.size_set]
    exact Nat.le_add_right _ _

/-- A call changes the generations of what it lets grow, and of no other object. -/
theorem Called.generation (hc : Called snapshots index name args r answer r')
    (hq : q.index < r.machine.heap.size) :
    r'.machine.heap.generation q =
      Call.ages ⟨index, name, args⟩ q (r.machine.heap.generation q) := by
  have hother : ¬ (name ∈ Natives.growing ∧ args.head? = some (.object q)) →
      Call.ages ⟨index, name, args⟩ q (r.machine.heap.generation q) =
        r.machine.heap.generation q := fun h => if_neg (mt Call.grown?_eq_some.1 h)
  cases hc with
  | quiet os _ hgrow _ _ =>
    rw [hother fun h => hgrow h.1]
    exact Heap.generation_congr (Heap.get?_allocAll_of_lt _ _ hq)
  | draw _ hgrow _ _ =>
    rw [hother fun h => hgrow h.1]
    exact generation_takeFrame _ _ _ hq
  | @grow p o₀ o _ hgrow hp ho hgrows =>
    refine (generation_takeFrame snapshots index { r with machine :=
      ⟨r.machine.heap.set p o, r.machine.session.requestRender⟩ } (by simpa using hq)).trans ?_
    by_cases hpq : p = q
    · subst hpq
      have hages : Call.grown? ⟨index, name, args⟩ = some p := Call.grown?_eq_some.2 ⟨hgrow, hp⟩
      rw [Heap.generation_of_get? (Heap.get?_set_self _ o hq), hgrows.generation_eq,
        Heap.generation_of_get? ho, Call.ages, if_pos hages]
    · rw [hother fun h => hpq (by simpa using hp.symm.trans h.2)]
      exact Heap.generation_congr (Heap.get?_set_of_ne _ o hpq)

/-- What a call answers refers to new objects, which have made no generations. -/
theorem Called.answer_fresh (hc : Called snapshots index name args r answer r') {v : Value}
    (hv : answer = some v) (hq : q ∈ v.refs) :
    r.machine.heap.size ≤ q.index ∧ r'.machine.heap.generation q = 0 := by
  cases hc with
  | quiet os _ _ hrefs hfresh =>
    have hnew := hrefs v hv hq
    obtain ⟨o, ho, hget⟩ := Heap.exists_get?_allocAll hnew
    exact ⟨(Heap.mem_allocAll hnew).1,
      (Heap.generation_of_get? hget).trans (hfresh o ho).generation_eq⟩
  | draw => cases hv
  | grow => cases hv

theorem Course.size_le (h : Course snapshots r log r') (hr : r.Tidy) :
    r.machine.heap.size ≤ r'.machine.heap.size :=
  h.induct (P := fun _ r' => r.machine.heap.size ≤ r'.machine.heap.size) []
    (fun _ _ hcalled hle => Nat.le_trans hle hcalled.size_le) (fun _ _ hle => hle) hr
    (Nat.le_refl _)

/-- **The generations of an object follow from the calls alone.** -/
theorem Course.generation (h : Course snapshots r log r') (hr : r.Tidy)
    (hq : q.index < r.machine.heap.size) :
    r'.machine.heap.generation q =
      log.foldl (fun n c => c.ages q n) (r.machine.heap.generation q) := by
  refine (h.induct (P := fun log r' => q.index < r'.machine.heap.size ∧
    r'.machine.heap.generation q =
      log.foldl (fun n c => c.ages q n) (r.machine.heap.generation q)) []
    (fun _ _ hcalled hlog => ⟨?_, ?_⟩) (fun _ _ hlog => hlog) hr ⟨hq, rfl⟩).2
  · exact Nat.lt_of_lt_of_le hlog.1 hcalled.size_le
  · rw [hcalled.generation hlog.1, hlog.2, List.foldl_append]
    rfl

/-- What several calls answer refers to new objects as well. -/
theorem callTimes_answer_fresh (hf : f ∈ Natives.registry.natives) (hr : r.Tidy)
    (hargs : ∀ v ∈ args, r.Holds v) {n : Nat} {v : Value}
    (h : callTimes snapshots index f args n none r = .ok (some v, r')) (hq : q ∈ v.refs) :
    r.machine.heap.size ≤ q.index ∧ r'.machine.heap.generation q = 0 := by
  cases n with
  | zero => cases h
  | succ n =>
    obtain ⟨last, before, hothers, honce⟩ := callTimes_succ_eq_ok.1 h
    obtain ⟨hcourse, -⟩ := course_callTimes hf hr hargs (by simp) hothers
    have hsettled := (hcourse.tidy hr).1.settled
    obtain ⟨hnew, hzero⟩ := (called_of_callOnce hf hsettled honce).answer_fresh rfl hq
    exact ⟨Nat.le_trans (hcourse.size_le hr) hnew, hzero⟩

/-- An object that is bound after several calls is a new one. -/
theorem callTimes_getD_fresh (hf : f ∈ Natives.registry.natives) (hr : r.Tidy)
    (hargs : ∀ v ∈ args, r.Holds v) {n : Nat}
    (h : callTimes snapshots index f args n none r = .ok (answer, r'))
    (hq : answer.getD .nothing = .object q) :
    r.machine.heap.size ≤ q.index ∧ r'.machine.heap.generation q = 0 := by
  obtain rfl : answer = some (.object q) := by
    cases answer with
    | none => cases hq
    | some v => exact congrArg some hq
  exact callTimes_answer_fresh hf hr hargs h (by simp [Value.refs])

/-! ## The counts of the check -/

/-- The counts of the check, by names, go with those of the run, by objects: none falls behind, up
to the number at which it stops, and no object is counted under two names. -/
structure Counted (depths : List Depth) (r : Run) : Prop where
  bounded : ∀ name q, r.bindings.get? name = some (.object q) →
    min (r.machine.heap.generation q) maxGenerations ≤ (depthOf depths name).generations
  unshared : ∀ name name' q, r.bindings.get? name = some (.object q) →
    r.bindings.get? name' = some (.object q) → name = name'

/-- What lets an object grow and is not counted starts it afresh. -/
theorem next_of_growing : ∀ name ∈ Natives.growing, name ≠ "Apol.enclosing" →
    ".next".toList.isSuffixOf name.toList = true := by
  decide

theorem advances_of_growing (hgrow : s.call ∈ Natives.growing) (hnext : s.call ≠ "Apol.enclosing")
    (hhead : s.args.head? = some (.binding name)) : advances s = some name := by
  simp only [advances, next_of_growing _ hgrow hnext, if_true, hhead]

theorem valueOf_eq_object {b : Bindings} {a : Arg} (h : valueOf b a = .object q) :
    ∃ name, a = .binding name ∧ b.get? name = some (.object q) := by
  cases a with
  | binding name =>
    refine ⟨name, rfl, ?_⟩
    cases hget : b.get? name with
    | none => simp [valueOf, hget] at h
    | some v => simpa [valueOf, hget] using h
  | _ => simp [valueOf] at h

theorem Tidy.lt_size (hr : r.Tidy) (h : r.bindings.get? name = some (.object q)) :
    q.index < r.machine.heap.size := by
  have hholds := hr.holds_valueOf (.binding name)
  simp only [valueOf, h, Option.getD_some] at hholds
  exact (hholds q (by simp [Value.refs])).1

namespace Counted

theorem fresh : Counted [] {} where
  bounded _ _ h := by cases h
  unshared _ _ _ h := by cases h

/-- A step grows what a name is bound to if it is given this name first. -/
theorem grown?_eq_some (h : Counted depths r)
    (hbound : r.bindings.get? name = some (.object q)) :
    Call.grown? ⟨index, s.call, s.args.map (valueOf r.bindings)⟩ = some q ↔
      s.call ∈ Natives.growing ∧ s.args.head? = some (.binding name) := by
  rw [Call.grown?_eq_some, List.head?_map]
  refine and_congr_right fun _ => ⟨fun hhead => ?_, fun hhead => ?_⟩
  · obtain ⟨a, ha, hvalue⟩ := Option.map_eq_some_iff.1 hhead
    obtain ⟨name', rfl, hbound'⟩ := valueOf_eq_object hvalue
    rw [ha, h.unshared name name' q hbound hbound']
  · simp only [hhead, Option.map_some, valueOf, hbound, Option.getD_some]

/-- While a step makes its calls, the count that the check has after it is not surpassed. -/
theorem generation_le (h : Counted depths r) (hr : r.Tidy) {m : Nat} (hm : m ≤ s.times)
    (hcourse : Course snapshots r
      (List.replicate m ⟨index, s.call, s.args.map (valueOf r.bindings)⟩) r')
    (hbound : r.bindings.get? name = some (.object q)) :
    min (r'.machine.heap.generation q) maxGenerations ≤
      (depthOf (stepDepths depths s).2 name).generations := by
  have hbefore := h.bounded name q hbound
  rw [hcourse.generation hr (hr.lt_size hbound), Call.foldl_ages_replicate,
    Sketch.generations_stepDepths]
  split
  case isTrue hgrown =>
    obtain ⟨hgrow, hhead⟩ := (h.grown?_eq_some hbound).1 hgrown.1
    split
    case isTrue => simp only [Nat.zero_min, Nat.zero_le]
    case isFalse hnext =>
      rw [if_pos (advances_of_growing hgrow hnext hhead)]
      omega
  case isFalse =>
    split <;> omega

/-- A name may be bound to what has made no generations and has no other name. -/
theorem bind (h : Counted depths r) (name : String) {v : Value}
    (hfresh : ∀ q, v = .object q → r.machine.heap.generation q = 0 ∧
      ∀ other, r.bindings.get? other ≠ some (.object q)) :
    Counted (forget depths name) { r with bindings := r.bindings.insert name v } := by
  refine ⟨fun other q hother => ?_, fun other other' q hother hother' => ?_⟩
  · by_cases hname : other = name
    · subst hname
      rw [Bindings.get?_insert_self] at hother
      have hzero := (hfresh q (Option.some.inj hother)).1
      simp only [hzero, Nat.zero_min, Nat.zero_le]
    · rw [Bindings.get?_insert_of_ne _ _ hname] at hother
      rw [Sketch.depthOf_forget_of_ne hname]
      exact h.bounded other q hother
  · by_cases hname : other = name <;> by_cases hname' : other' = name
    · exact hname.trans hname'.symm
    · subst hname
      rw [Bindings.get?_insert_self] at hother
      rw [Bindings.get?_insert_of_ne _ _ hname'] at hother'
      exact absurd hother' ((hfresh q (Option.some.inj hother)).2 other')
    · subst hname'
      rw [Bindings.get?_insert_self] at hother'
      rw [Bindings.get?_insert_of_ne _ _ hname] at hother
      exact absurd hother ((hfresh q (Option.some.inj hother')).2 other)
    · rw [Bindings.get?_insert_of_ne _ _ hname] at hother
      rw [Bindings.get?_insert_of_ne _ _ hname'] at hother'
      exact h.unshared other other' q hother hother'

/-- **Both sides count a step alike.** -/
theorem step (h : Counted depths r) (hr : r.Tidy) (hstep : step snapshots index s r = .ok r') :
    Counted (countStep depths s).2 r' := by
  obtain ⟨f, answer, r₁, hf, -, hcalls, rfl⟩ := step_eq_ok hstep
  obtain ⟨hmem, hname⟩ := Registry.get?_some hf
  obtain ⟨hcourse, -⟩ := course_callTimes hmem hr (hr.holds_values s.args) (by simp) hcalls
  have hbindings := bindings_callTimes hcalls
  rw [hname] at hcourse
  have hcalled : Counted (stepDepths depths s).2 r₁ := by
    refine ⟨fun name q hbound => ?_, ?_⟩
    · rw [hbindings] at hbound
      exact h.generation_le hr (Nat.le_refl _) hcourse hbound
    · rw [hbindings]
      exact h.unshared
  cases hbind : s.bind with
  | none =>
    simp only [settle, countStep, hbind]
    exact hcalled
  | some name =>
    simp only [settle, countStep, hbind]
    -- What is bound was made by the last call, after all that other names are bound to.
    refine hcalled.bind name fun q hq => ?_
    obtain ⟨hnew, hzero⟩ :=
      callTimes_getD_fresh hmem hr (hr.holds_values s.args) hcalls hq
    refine ⟨hzero, fun other hother => ?_⟩
    rw [hbindings] at hother
    exact absurd (hr.lt_size hother) (Nat.not_lt.2 hnew)

end Counted

end Run

namespace Sketch

variable {snapshots : Snapshots} {s : Sketch} {k : Nat} {r : Run}

theorem Reaches.counted (h : s.Reaches snapshots k r) : Run.Counted (s.depthsBefore k) r := by
  induction k generalizing r with
  | zero =>
    cases h
    exact .fresh
  | succ k ih =>
    cases hfound : s.steps[k]? with
    | none =>
      rw [depthsBefore_of_none hfound]
      exact ih (h.of_none hfound)
    | some step =>
      obtain ⟨start, hstart, hstep⟩ := h.of_succ hfound
      rw [depthsBefore_succ hfound]
      exact (ih hstart).step hstart.tidy hstep

/-- The states of a run while it is at the step `k`: before the step, after any of its calls, and
after the step. -/
inductive Visits (snapshots : Snapshots) (s : Sketch) (k : Nat) (r : Run) : Prop where
  | start (reaches : s.Reaches snapshots k r)
  | call {j : Nat} {before : Run} (call : s.CallAt snapshots k j before r)
  | finish (reaches : s.Reaches snapshots (k + 1) r)

/-- At every moment, the check that knows all steps up to the present one has a count for every
generator that is bound. -/
theorem Visits.exists_depths (h : s.Visits snapshots k r) :
    ∃ depths, s.Warned (k + 1) depths ∧ ∀ name q, r.bindings.get? name = some (.object q) →
      min (r.machine.heap.generation q) maxGenerations ≤ (depthOf depths name).generations := by
  cases h with
  | start reaches =>
    exact ⟨_, (Warned.before s k).later, reaches.counted.bounded⟩
  | call call =>
    obtain @⟨start, step, f, args, last, answer, hreaches, hfound, hj, hf, hargs, hothers, honce⟩ :=
      call
    obtain ⟨hmem, hname⟩ := Registry.get?_some hf
    obtain ⟨-, rfl⟩ := Run.arguments_eq_ok hargs
    have hcalls := Run.callTimes_succ_eq_ok.2 ⟨last, _, hothers, honce⟩
    have hcourse := (Run.course_callTimes hmem hreaches.tidy
      (hreaches.tidy.holds_values step.args) (by simp) hcalls).1
    rw [hname] at hcourse
    -- The count after the whole step is good enough for all moments in it.
    refine ⟨_, (Warned.before s k).advance hfound, fun name q hbound => ?_⟩
    rw [Run.bindings_callTimes hcalls] at hbound
    exact hreaches.counted.generation_le hreaches.tidy hj hcourse hbound
  | finish reaches => exact ⟨_, Warned.before s (k + 1), reaches.counted.bounded⟩

/-- **No generator gets too deep without a warning.** Whenever a name is bound to a generator of
more than `deepGenerations` generations, at whatever moment of a run, whether it goes well or not,
the check warns of the name, at a step no later than the one that the run is at. -/
theorem deep_generators_reported {name : String} {q : ObjectRef} {o : Object}
    (h : s.Visits snapshots k r) (hbound : r.bindings.get? name = some (.object q))
    (hobject : r.machine.heap.get? q = some o) (hdeep : deepGenerations < o.generation) :
    ∃ i ≤ k, ∃ n, ⟨.deepGeneration name n deepGenerations, some i⟩ ∈ s.checkGenerationDepth := by
  obtain ⟨depths, hwarned, hcounted⟩ := h.exists_depths
  have hcount := hcounted name q hbound
  rw [Heap.generation_of_get? hobject] at hcount
  have hlimit : deepGenerations < maxGenerations := by decide
  have hpassed : deepGenerations < (depthOf depths name).generations := by omega
  obtain ⟨i, hi, hwarning⟩ := hwarned.reported hpassed
  exact ⟨i, Nat.le_of_lt_succ hi, hwarning⟩

/-- A sketch that steps a gasket twelve times. -/
def deepening : Sketch where
  name := "deepening"
  steps := [
    { call := "Apol", bind := some "g" },
    { call := "Apol.next", args := [.binding "g"], times := 12 },
    { call := "Apol.draw", args := [.binding "g"] }]

/-- It is warned of when it has been stepped eleven times, in the middle of the second step. -/
theorem deep_generators_reported_deepening : ∃ r q o, deepening.Visits .skip 1 r ∧
    r.bindings.get? "g" = some (.object q) ∧ r.machine.heap.get? q = some o ∧
    o.generation = 11 ∧ ∃ i ≤ 1, ∃ n,
      ⟨.deepGeneration "g" n deepGenerations, some i⟩ ∈ deepening.checkGenerationDepth := by
  obtain ⟨before, r, hcall, q, o, hbound, hobject, heleven⟩ :
      ∃ before r, deepening.CallAt .skip 1 10 before r ∧ ∃ q o,
        r.bindings.get? "g" = some (.object q) ∧ r.machine.heap.get? q = some o ∧
        o.generation = 11 :=
    ⟨_, _, .intro rfl rfl (by decide) rfl rfl rfl rfl, ⟨0⟩, _, rfl, rfl, rfl⟩
  have hdeep : deepGenerations < o.generation := by rw [heleven]; decide
  exact ⟨r, q, o, .call hcall, hbound, hobject, heleven,
    deep_generators_reported (.call hcall) hbound hobject hdeep⟩

end Sketch

end Easel
