import Easel.Proofs.Sketch.Snapshots
import Easel.Proofs.Sketch.Unseen

/-!
# Sketches cut short

A sketch that is cut short after one call of one step does what the whole sketch does up to that
call. So what was on the canvas at an earlier moment of a run can be asked for: run the sketch cut
short there. The snapshot that was taken at that moment shows the same, at the end of the whole run
as well, for nothing that is called later owns the objects that were copied for it.
-/

namespace Easel

namespace Run

variable {snapshots : Snapshots} {index : Nat} {f : Native} {args : List Value} {r r' : Run}
  {last answer : Option Value}

/-! ## Repetitions -/

theorem callTimes_add (m n : Nat) (last : Option Value) (r : Run) :
    callTimes snapshots index f args (m + n) last r =
      (callTimes snapshots index f args m last r >>= fun called =>
        callTimes snapshots index f args n called.1 called.2) := by
  induction m generalizing last r with
  | zero =>
    rw [Nat.zero_add]
    rfl
  | succ m ih =>
    rw [Nat.add_right_comm]
    simp only [callTimes]
    cases callOnce snapshots index f args r with
    | error e => rfl
    | ok called => exact ih called.1 called.2

theorem callTimes_one (last : Option Value) (r : Run) :
    callTimes snapshots index f args 1 last r = callOnce snapshots index f args r := by
  simp only [callTimes]
  cases callOnce snapshots index f args r <;> rfl

/-- The last of the calls is made after all others. -/
theorem callTimes_succ_eq_ok {n : Nat} :
    callTimes snapshots index f args (n + 1) last r = .ok (answer, r') ↔
      ∃ last' before, callTimes snapshots index f args n last r = .ok (last', before) ∧
        callOnce snapshots index f args before = .ok (answer, r') := by
  rw [callTimes_add, bind_eq_ok]
  simp only [callTimes_one, Prod.exists]

theorem bindings_callOnce (h : callOnce snapshots index f args r = .ok (answer, r')) :
    r'.bindings = r.bindings := by
  unfold callOnce at h
  split at h
  · cases h
    exact bindings_takeFrame _ _ _
  · cases h

/-- Calls bind nothing. -/
theorem bindings_callTimes {n : Nat}
    (h : callTimes snapshots index f args n last r = .ok (answer, r')) :
    r'.bindings = r.bindings := by
  induction n generalizing last r with
  | zero =>
    cases h
    rfl
  | succ n ih =>
    obtain ⟨⟨next, r₁⟩, honce, htimes⟩ := bind_eq_ok.1 h
    exact (ih htimes).trans (bindings_callOnce honce)

/-- A call produces one frame or none. -/
theorem frames_callOnce (h : callOnce snapshots index f args r = .ok (answer, r')) :
    r.frames ≤ r'.frames ∧ r'.frames ≤ r.frames + 1 := by
  unfold callOnce at h
  split at h
  · cases h
    rw [frames_takeFrame]
    split <;> simp
  · cases h

/-- Every frame that calls produce is produced by one of them. -/
theorem exists_callOnce {n k : Nat}
    (h : callTimes snapshots index f args n last r = .ok (answer, r')) (hr : r.frames ≤ k)
    (hk : k < r'.frames) :
    ∃ j < n, ∃ last' before answer' after,
      callTimes snapshots index f args j last r = .ok (last', before) ∧
      callOnce snapshots index f args before = .ok (answer', after) ∧
      before.frames = k ∧ after.frames = k + 1 := by
  -- The calls are taken from the last one: the frame is its own, or one of those before it.
  induction n generalizing answer r' with
  | zero =>
    cases h
    omega
  | succ n ih =>
    obtain ⟨last', before, htimes, honce⟩ := callTimes_succ_eq_ok.1 h
    by_cases hbefore : k < before.frames
    · obtain ⟨j, hj, hcall⟩ := ih htimes hbefore
      exact ⟨j, by omega, hcall⟩
    · have hframes := frames_callOnce honce
      exact ⟨n, by omega, last', before, answer, r', htimes, honce, by omega, by omega⟩

/-- Arguments that can be evaluated are bound, and have the values of their names. -/
theorem arguments_eq_ok {as : List Arg} {vs : List Value}
    (h : as.mapM (argument r.bindings) = .ok vs) :
    as.findSome? (Arg.unbound? r.bound) = none ∧ vs = as.map (valueOf r.bindings) := by
  cases hu : as.findSome? (Arg.unbound? r.bound) with
  | some name => cases (arguments_unbound hu).symm.trans h
  | none =>
    cases (arguments_bound hu).symm.trans h
    exact ⟨rfl, rfl⟩

/-- A step whose calls go well goes well. -/
theorem step_of_callTimes {s : Step} (hf : Natives.registry.get? s.call = some f)
    (hargs : s.args.mapM (argument r.bindings) = .ok args)
    (hcalls : callTimes snapshots index f args s.times none r = .ok (answer, r')) :
    step snapshots index s r = .ok (settle s answer r') := by
  obtain ⟨hu, rfl⟩ := arguments_eq_ok hargs
  rw [step_bound hf hu, hcalls]
  rfl

/-- A step leaves all names alone but the one that it binds. -/
theorem get?_step {s : Step} {name : String} (h : step snapshots index s r = .ok r')
    (hbind : s.bind ≠ some name) : r'.bindings.get? name = r.bindings.get? name := by
  obtain ⟨f, answer, r₁, -, -, hcalls, rfl⟩ := step_eq_ok h
  rw [← bindings_callTimes hcalls, settle]
  split
  case h_1 other hother =>
    refine Bindings.get?_insert_of_ne _ _ fun hname => hbind ?_
    rw [hother, hname]
  case h_2 => rfl

theorem frames_settle (s : Step) (answer : Option Value) (r : Run) :
    (settle s answer r).frames = r.frames := by
  unfold settle
  split <;> rfl

theorem shown_settle (s : Step) (answer : Option Value) (r : Run) :
    (settle s answer r).shown = r.shown := by
  unfold settle
  split <;> rfl

end Run

namespace Sketch

/-- The sketch cut short: the steps before the one at `i`, and that one with `j` calls. -/
def upTo (s : Sketch) (i j : Nat) : Sketch :=
  { s with steps :=
      s.steps.take i ++ (s.steps[i]?.map fun step => { step with times := j }).toList }

/-- The call of the step at `i` that is made after `j` other calls of that step takes the run from
`before` to `after`. -/
inductive CallAt (snapshots : Snapshots) (s : Sketch) (i j : Nat) (before after : Run) : Prop where
  | intro {start : Run} {step : Step} {f : Native} {args : List Value} {last answer : Option Value}
      (reaches : s.Reaches snapshots i start) (found : s.steps[i]? = some step)
      (times : j < step.times) (native : Natives.registry.get? step.call = some f)
      (arguments : step.args.mapM (Run.argument start.bindings) = .ok args)
      (others : Run.callTimes snapshots i f args j none start = .ok (last, before))
      (once : Run.callOnce snapshots i f args before = .ok (answer, after))

/-- The call of the step at `i` that is made after `j` other calls of that step produces the frame
with the number `k`. -/
def Produces (s : Sketch) (i j k : Nat) : Prop :=
  ∃ before after, s.CallAt .keep i j before after ∧ before.frames = k ∧ after.frames = k + 1

variable {snapshots : Snapshots} {s : Sketch} {i j k n : Nat} {t before after : Run}

/-! ## The run on the way -/

theorem Reaches.tidy (h : s.Reaches snapshots n t) : t.Tidy :=
  ((Run.course_steps .fresh h).tidy .fresh).1

/-- A run that has come to a step came to all steps before. -/
theorem Reaches.earlier (h : s.Reaches snapshots n t) {m : Nat} (hm : m ≤ n) :
    ∃ t₁, s.Reaches snapshots m t₁ ∧ t₁.Precedes t := by
  induction n generalizing t with
  | zero =>
    obtain rfl : m = 0 := by omega
    exact ⟨t, h, .refl t⟩
  | succ n ih =>
    by_cases hlast : m = n + 1
    · subst hlast
      exact ⟨t, h, .refl t⟩
    · cases hfound : s.steps[n]? with
      | none => exact ih (h.of_none hfound) (by omega)
      | some step =>
        obtain ⟨r, hr, hstep⟩ := h.of_succ hfound
        obtain ⟨t₁, ht₁, hprecedes⟩ := ih hr (by omega)
        exact ⟨t₁, ht₁, hprecedes.trans ((Run.course_step hr.tidy hstep).tidy hr.tidy).2⟩

/-- Every frame of a run is produced by some call. -/
theorem Reaches.exists_callAt (h : s.Reaches snapshots n t) (hk : k < t.frames) :
    ∃ i j before after, s.CallAt snapshots i j before after ∧ before.frames = k ∧
      after.frames = k + 1 := by
  induction n generalizing t with
  | zero =>
    cases h
    cases hk
  | succ n ih =>
    cases hfound : s.steps[n]? with
    | none => exact ih (h.of_none hfound) hk
    | some step =>
      obtain ⟨start, hreaches, hstep⟩ := h.of_succ hfound
      by_cases hbefore : k < start.frames
      · exact ih hreaches hbefore
      · obtain ⟨f, answer, r₁, hf, hargs, hcalls, rfl⟩ := Run.step_eq_ok hstep
        rw [Run.frames_settle] at hk
        obtain ⟨j, hj, last, before, answer', after, hothers, honce, hframes⟩ :=
          Run.exists_callOnce hcalls (Nat.le_of_not_lt hbefore) hk
        exact ⟨n, j, before, after, .intro hreaches hfound hj hf hargs hothers honce, hframes⟩

namespace CallAt

variable (h : s.CallAt snapshots i j before after)

include h

/-- The sketch that is cut short after a call runs up to that call, and binds the answer. -/
theorem run_upTo : ∃ t, (s.upTo i (j + 1)).run snapshots = .ok t ∧ t.shown = after.shown := by
  obtain @⟨start, step, f, args, last, answer, hreaches, hfound, -, hf, hargs, hothers, honce⟩ := h
  obtain ⟨hi, -⟩ := List.getElem?_eq_some_iff.1 hfound
  have hindex : 0 + (s.steps.take i).length = i := by
    rw [List.length_take]
    omega
  have hstep : Run.step snapshots i { step with times := j + 1 } start =
      .ok (Run.settle step answer after) :=
    Run.step_of_callTimes hf hargs (Run.callTimes_succ_eq_ok.2 ⟨last, before, hothers, honce⟩)
  refine ⟨Run.settle step answer after, ?_, Run.shown_settle step answer after⟩
  rw [run, upTo, hfound, Option.map_some, Option.toList_some, Run.steps_append, hindex, hreaches]
  exact (Run.steps_singleton i _ start).trans hstep

/-- A run takes its course up to a call, and makes it with what it holds. -/
theorem called : ∃ log, Run.Course snapshots {} log before ∧ ∃ name args answer,
    (∀ v ∈ args, before.Holds v) ∧ Run.Called snapshots i name args before answer after := by
  obtain ⟨hreaches, -, -, hf, hargs, hothers, honce⟩ := h
  obtain ⟨hmem, -⟩ := Registry.get?_some hf
  have hholds := (Run.arguments_eq_ok hargs).2 ▸ hreaches.tidy.holds_values _
  have hcourse := (Run.course_callTimes hmem hreaches.tidy hholds (by simp) hothers).1
  obtain ⟨htidy, hprecedes⟩ := hcourse.tidy hreaches.tidy
  exact ⟨_, (Run.course_steps .fresh hreaches).append hcourse, _, _, _,
    fun v hv => hprecedes.holds (hholds v hv), Run.called_of_callOnce hmem htidy.settled honce⟩

theorem lt_length : i < s.steps.length := by
  obtain ⟨-, hfound, -, -, -, -, -⟩ := h
  exact (List.getElem?_eq_some_iff.1 hfound).1

/-- The run goes on from a call to all later steps. -/
theorem precedes (hi : i < n) (ht : s.Reaches snapshots n t) : after.Precedes t := by
  obtain @⟨start, step, f, args, last, answer, hreaches, hfound, hj, hf, hargs, hothers, honce⟩ :=
    h
  obtain ⟨next, hnext, hlater⟩ := ht.earlier hi
  obtain ⟨start', hreaches', hstep⟩ := hnext.of_succ hfound
  cases hreaches.symm.trans hreaches'
  obtain ⟨f', answer', r₁, hf', hargs', hcalls, rfl⟩ := Run.step_eq_ok hstep
  cases hf.symm.trans hf'
  cases hargs.symm.trans hargs'
  -- The calls of the step are those up to this one and the rest.
  have htimes : step.times = (j + 1) + (step.times - (j + 1)) := by omega
  have hfirst := Run.callTimes_succ_eq_ok.2 ⟨last, before, hothers, honce⟩
  rw [htimes, Run.callTimes_add, hfirst] at hcalls
  obtain ⟨hmem, -⟩ := Registry.get?_some hf
  have hholds := hreaches.tidy.holds_values step.args
  obtain ⟨hcourse, hanswer⟩ := Run.course_callTimes hmem hreaches.tidy hholds (by simp) hfirst
  obtain ⟨htidy, hprecedes⟩ := hcourse.tidy hreaches.tidy
  obtain ⟨hrest, hanswer'⟩ := Run.course_callTimes hmem htidy
    (fun v hv => hprecedes.holds (hholds v hv)) hanswer hcalls
  exact ((hrest.append (Run.course_settle step hanswer')).tidy htidy).2.trans hlater

end CallAt

/-- **Snapshots are frozen, and exact.** There is a snapshot of every frame, and every frame is
produced by some call. If the call of the step at `i` after `j` others produces the frame `k`, the
snapshot of that frame shows what the canvas shows at the end if the sketch is cut short after that
call, whether that run keeps snapshots or not; and it shows the same after every later step, to the
end of the run. Every object that was copied for a snapshot is still there. -/
theorem snapshots_frozen {r : Run} (h : s.run .keep = .ok r) :
    r.snapshots.size = r.frames ∧
    (∀ q ∈ r.copies, ∃ o, r.machine.heap.get? q = some o) ∧
    (∀ k < r.frames, ∃ i j, s.Produces i j k) ∧
    ∀ i j k, s.Produces i j k → ∃ frame, r.snapshots[k]? = some frame ∧
      frame.index = k ∧ frame.step = i ∧
      (∀ snapshots, ∃ t, (s.upTo i (j + 1)).run snapshots = .ok t ∧ frame.shown = t.shown) ∧
      ∀ n t, i < n → s.Reaches .keep n t → t.snapshots[k]? = some frame := by
  have hreaches := run_eq_ok.1 h
  have hcurrent := (course_run h).current .fresh .fresh
  refine ⟨hcurrent.size, fun q hq => Heap.exists_get?_of_lt (hreaches.tidy.copies q hq),
    fun k hk => ?_, ?_⟩
  · obtain ⟨i, j, hproduces⟩ := hreaches.exists_callAt hk
    exact ⟨i, j, hproduces⟩
  · rintro i j k ⟨before, after, hcall, rfl, hframes⟩
    obtain ⟨log, hcourse, name, args, answer, hholds, hcalled⟩ := hcall.called
    have hbefore := hcourse.current .fresh .fresh
    rcases (hcourse.tidy .fresh).1.snapshots_called hholds hcalled with
      ⟨hsame, -⟩ | ⟨-, hsnapshots⟩
    · omega
    have hget : after.snapshots[before.frames]? = some ⟨before.frames, i, after.shown⟩ := by
      rw [hsnapshots, ← hbefore.size, Array.getElem?_push_size]
    have hkept : ∀ n t, i < n → s.Reaches .keep n t →
        t.snapshots[before.frames]? = some ⟨before.frames, i, after.shown⟩ :=
      fun n t hi ht => (hcall.precedes hi ht).getElem?_snapshots hget
    refine ⟨_, hkept _ r hcall.lt_length hreaches, rfl, rfl, fun snapshots => ?_, hkept⟩
    obtain ⟨t, hrun, hshown⟩ := hcall.run_upTo
    cases snapshots with
    | keep => exact ⟨t, hrun, hshown.symm⟩
    | skip =>
      rcases Run.steps_renamed 0 (s.upTo i (j + 1)).steps .fresh .fresh with
        ⟨e, -, hfail⟩ | ⟨t₀, t', ρ, hskip, hkeep, hrenamed⟩
      · cases hrun.symm.trans hfail
      · cases hrun.symm.trans hkeep
        exact ⟨t₀, hskip, hshown.symm.trans hrenamed.shown_eq⟩

theorem snapshots_frozen_sprouting : ∃ r frame t, sprouting.run .keep = .ok r ∧
    sprouting.Produces 1 0 0 ∧ r.snapshots[0]? = some frame ∧
    (sprouting.upTo 1 1).run .keep = .ok t ∧ frame.shown = t.shown := by
  obtain ⟨r, hrun⟩ : ∃ r, sprouting.run .keep = .ok r := ⟨_, rfl⟩
  have hproduces : sprouting.Produces 1 0 0 :=
    ⟨_, _, .intro rfl rfl (by decide) rfl rfl rfl rfl, rfl, rfl⟩
  obtain ⟨-, -, -, hfrozen⟩ := snapshots_frozen hrun
  obtain ⟨frame, hframe, -, -, hcut, -⟩ := hfrozen 1 0 0 hproduces
  obtain ⟨t, ht, hshown⟩ := hcut .keep
  exact ⟨r, frame, t, hrun, hproduces, hframe, ht, hshown⟩

end Sketch

end Easel
