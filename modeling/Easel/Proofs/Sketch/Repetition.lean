import Easel.Proofs.Sketch.Truncation

/-!
# Repetition

A step that makes its call `n` times does what `n` copies of it do that make it once each, if only
the last copy binds its answer. The native is looked up and the arguments are evaluated anew for
every copy, but always to the same, for a call changes objects and not bindings. All that tells the
two sketches apart is the numbers of the steps, and these are kept nowhere but in snapshots.
-/

namespace Easel

/-- The copies of a step that make its calls one at a time, of which the last binds the answer. -/
def Step.unrolled (s : Step) : List Step :=
  List.replicate (s.times - 1) { s with times := 1, bind := none } ++ [{ s with times := 1 }]

/-- Where the step at an index comes from, if the `n` steps from `k` on are copies of one. -/
def Step.originOf (k n index : Nat) : Nat :=
  if index < k then index else k + (index - k - (n - 1))

namespace Step

variable {k n m : Nat}

theorem length_unrolled {s : Step} (h : 1 ≤ s.times) : s.unrolled.length = s.times := by
  rw [unrolled, List.length_append, List.length_replicate, List.length_singleton]
  omega

theorem originOf_before (h : m < k) : originOf k n m = m := if_pos h

theorem originOf_copy (h : m < n) : originOf k n (k + m) = k := by
  rw [originOf, if_neg (by omega)]
  omega

theorem originOf_after (h : 1 ≤ n) : originOf k n (k + n + m) = k + 1 + m := by
  rw [originOf, if_neg (by omega)]
  omega

end Step

namespace Run

variable {snapshots : Snapshots} {index : Nat} {f : Native} {args : List Value} {s : Step}
  {r : Run}

/-! ## Steps under other numbers -/

/-- The run with the steps of its snapshots under other numbers. -/
def renumber (ν : Nat → Nat) (r : Run) : Run :=
  { r with kept := r.kept.map fun k => { k with step := ν k.step } }

variable (ν : Nat → Nat)

theorem snapshots_renumber (r : Run) :
    (r.renumber ν).snapshots =
      r.snapshots.map fun frame => { frame with step := ν frame.step } := by
  simp only [Run.snapshots, renumber, Array.map_map, Function.comp_def]

theorem takeFrame_renumber (snapshots : Snapshots) (index : Nat) (r : Run) :
    takeFrame snapshots (ν index) (r.renumber ν) = (takeFrame snapshots index r).renumber ν := by
  by_cases hpending : r.machine.session.redrawPending = true
  · have hpending' : (r.renumber ν).machine.session.redrawPending = true := hpending
    unfold takeFrame
    rw [if_pos hpending, if_pos hpending']
    cases snapshots with
    | skip => rfl
    | keep =>
      simp only [keepSnapshot, renumber, Array.map_push]
  · simp only [Bool.not_eq_true] at hpending
    rw [takeFrame_settled snapshots index r hpending,
      takeFrame_settled snapshots (ν index) (r.renumber ν) hpending]

theorem callOnce_renumber (snapshots : Snapshots) (index : Nat) (f : Native) (args : List Value)
    (r : Run) :
    callOnce snapshots (ν index) f args (r.renumber ν) =
      (callOnce snapshots index f args r).map fun called => (called.1, called.2.renumber ν) := by
  have hmachine : (r.renumber ν).machine = r.machine := rfl
  simp only [callOnce, hmachine]
  rcases (f.call args).run r.machine with ⟨e | answer, m⟩
  · rfl
  · have hframe := takeFrame_renumber ν snapshots index { r with machine := m }
    exact congrArg (fun after => Except.ok (answer, after)) hframe

theorem step_renumber (snapshots : Snapshots) (index : Nat) (s : Step) (r : Run) :
    step snapshots (ν index) s (r.renumber ν) =
      (step snapshots index s r).map (renumber ν) := by
  have hsettle : ∀ answer r, settle s answer (renumber ν r) = renumber ν (settle s answer r) := by
    intro answer r
    unfold settle
    cases s.bind <;> rfl
  exact step_commutes (fun _ => rfl) hsettle fun f args _ =>
    callOnce_renumber ν snapshots index f args

/-- Steps from `index'` on do what they do from `index` on, where `ν` takes the latter numbers to
the former. -/
theorem steps_renumber {index' : Nat} {ss : List Step}
    (hν : ∀ m < ss.length, ν (index + m) = index' + m) (r : Run) :
    steps snapshots index' ss (r.renumber ν) =
      (steps snapshots index ss r).map (renumber ν) := by
  induction ss generalizing index index' r with
  | nil => rfl
  | cons s rest ih =>
    have hfirst : ν index = index' := hν 0 (by simp)
    have hrest : ∀ m < rest.length, ν (index + 1 + m) = index' + 1 + m := by
      intro m hm
      have := hν (m + 1) (by simpa using hm)
      rw [show index + 1 + m = index + (m + 1) by omega, this]
      omega
    simp only [steps, ← hfirst, step_renumber]
    cases step snapshots index s r with
    | error e => rfl
    | ok r₁ =>
      rw [hfirst]
      exact ih hrest r₁

/-! ## One call at a time -/

/-- The first of several calls may be made by a step of its own that binds nothing. -/
theorem step_succ (snapshots : Snapshots) (index : Nat) (s : Step) (n : Nat) (r : Run) :
    step snapshots index { s with times := n + 2 } r =
      (step snapshots index { s with times := 1, bind := none } r >>=
        step snapshots index { s with times := n + 1 }) := by
  have hprepare : ∀ times bind b, prepare { s with times, bind } b = prepare s b :=
    fun _ _ _ => rfl
  cases hp : prepare s r.bindings with
  | error e =>
    rw [step_unprepared ((hprepare _ _ _).trans hp), step_unprepared ((hprepare _ _ _).trans hp)]
    rfl
  | ok call =>
    rw [step_prepared ((hprepare _ _ _).trans hp), step_prepared ((hprepare _ _ _).trans hp),
      callTimes_one]
    simp only [callTimes]
    cases honce : callOnce snapshots index call.1 call.2 r with
    | error e => rfl
    | ok called =>
      -- The call has left the bindings alone, so the next step starts from the same arguments.
      have hp' : prepare { s with times := n + 1 } called.2.bindings = .ok call :=
        bindings_callOnce honce ▸ hp
      exact (step_prepared hp').symm

/-- **A repeated step does what its copies do**, each of which makes its call once. -/
theorem step_unrolled {k : Nat} (hs : 1 ≤ s.times)
    (hν : ∀ m < s.times, ν (index + m) = k) (r : Run) :
    step snapshots k s (r.renumber ν) =
      (steps snapshots index s.unrolled r).map (renumber ν) := by
  obtain ⟨n, hn⟩ : ∃ n, s.times = n + 1 := ⟨s.times - 1, by omega⟩
  have hstep : { s with times := n + 1 } = s := by rw [← hn]
  rw [Step.unrolled, hn, Nat.add_sub_cancel, ← hstep]
  rw [hn] at hν
  clear hs hn hstep
  -- The copies are taken from the front; what is left is the step with a call fewer.
  induction n generalizing index r with
  | zero =>
    have hindex : ν index = k := hν 0 (by omega)
    rw [List.replicate_zero, List.nil_append, steps_singleton, ← hindex]
    exact step_renumber ν snapshots index _ r
  | succ n ih =>
    have hindex : ν index = k := hν 0 (by omega)
    have hrest : ∀ m < n + 1, ν (index + 1 + m) = k := by
      intro m hm
      have := hν (m + 1) (by omega)
      rwa [← Nat.add_assoc, Nat.add_right_comm] at this
    rw [List.replicate_succ, List.cons_append, step_succ, ← hindex, step_renumber, steps]
    cases step snapshots index { s with times := 1, bind := none } r with
    | error e => rfl
    | ok r₁ =>
      have hnext := ih r₁ hrest
      rw [← hindex] at hnext
      exact hnext

theorem renumber_fresh : renumber ν {} = {} := by simp [renumber]

/-- Steps go as they do with the copies of one of them in its place, under the number that it has. -/
theorem steps_unrolled {before after : List Step} (hs : 1 ≤ s.times) :
    steps snapshots 0 (before ++ s :: after) {} =
      (steps snapshots 0 (before ++ s.unrolled ++ after) {}).map
        (renumber (Step.originOf before.length s.times)) := by
  generalize hν : Step.originOf before.length s.times = ν
  have hbefore : ∀ m < before.length, ν (0 + m) = 0 + m := by
    intro m hm
    rw [← hν, Nat.zero_add, Step.originOf_before hm]
  have hcopies : ∀ m < s.times, ν (before.length + m) = before.length := by
    intro m hm
    rw [← hν, Step.originOf_copy hm]
  have hafter : ∀ m < after.length, ν (before.length + s.times + m) = before.length + 1 + m := by
    intro m _
    rw [← hν, Step.originOf_after hs]
  have hstart : steps snapshots 0 before (renumber ν {}) =
      (steps snapshots 0 before {}).map (renumber ν) := steps_renumber ν hbefore {}
  rw [renumber_fresh] at hstart
  rw [steps_append, List.append_assoc, steps_append, Nat.zero_add]
  cases hreach : steps snapshots 0 before {} with
  | error e => rfl
  | ok r =>
    -- Both sketches begin alike, so no snapshot before the step is renumbered.
    rw [hreach] at hstart
    have hr : r.renumber ν = r := (Except.ok.inj hstart).symm
    have hstep : step snapshots before.length s (r.renumber ν) =
        (steps snapshots before.length s.unrolled r).map (renumber ν) :=
      step_unrolled ν hs hcopies r
    rw [hr] at hstep
    simp only [Except.map, bind, Except.bind, steps, steps_append, Step.length_unrolled hs, hstep]
    cases steps snapshots before.length s.unrolled r with
    | error e => rfl
    | ok r₁ => exact steps_renumber ν hafter r₁

end Run

namespace Sketch

/-- **A repetition is that many copies.** If a step that runs is replaced by as many copies as it
makes calls, each of which makes one call and only the last of which binds, the sketch fails with
the same error, or comes to the same machine, with the same objects, canvas and references, to the
same bindings and to the same number of frames; and its snapshots show the same, in the same
order. -/
theorem run_unrolled {s : Sketch} {before after : List Step} {step : Step}
    (hs : s.steps = before ++ step :: after) (htimes : 1 ≤ step.times) (snapshots : Snapshots) :
    let t : Sketch := { s with steps := before ++ step.unrolled ++ after }
    (∃ e, s.run snapshots = .error e ∧ t.run snapshots = .error e) ∨
    ∃ r r', s.run snapshots = .ok r ∧ t.run snapshots = .ok r' ∧
      r'.machine = r.machine ∧ r'.bindings = r.bindings ∧ r'.frames = r.frames ∧
      r.snapshots = r'.snapshots.map fun frame =>
        { frame with step := Step.originOf before.length step.times frame.step } := by
  intro t
  have hrun : s.run snapshots =
      (t.run snapshots).map (Run.renumber (Step.originOf before.length step.times)) := by
    rw [run, hs]
    exact Run.steps_unrolled htimes
  cases ht : t.run snapshots with
  | error e =>
    rw [ht] at hrun
    exact .inl ⟨e, hrun, rfl⟩
  | ok r' =>
    rw [ht] at hrun
    exact .inr ⟨_, r', hrun, rfl, rfl, rfl, rfl, Run.snapshots_renumber _ r'⟩

/-- A step that grows a gasket three times and binds `nothing` to the name that it reads. -/
def outgrowing : Step :=
  { call := "Apol.next", args := [.binding "g"], bind := some "g", times := 3 }

/-- A sketch with a gasket that is on the canvas while it grows, and cannot be drawn again. -/
def outgrown : Sketch where
  name := "outgrown"
  steps := [
    { call := "Apol", bind := some "g" },
    { call := "Apol.draw", args := [.binding "g"] }] ++
    outgrowing :: [{ call := "Point", args := [.number 1, .number 2], bind := some "p" }]

/-- The same sketch with the steps of the gasket one at a time. -/
def outgrownUnrolled : Sketch :=
  { outgrown with
    steps := outgrown.steps.take 2 ++ outgrowing.unrolled ++ outgrown.steps.drop 3 }

theorem run_unrolled_outgrown : 1 ≤ outgrowing.times ∧ ∃ r r', outgrown.run .keep = .ok r ∧
    outgrownUnrolled.run .keep = .ok r' ∧ r.frames = 4 ∧ r'.frames = r.frames ∧
    r'.machine = r.machine ∧ r'.bindings = r.bindings ∧
    r.snapshots = r'.snapshots.map fun frame =>
      { frame with step := Step.originOf 2 3 frame.step } := by
  have htimes : 1 ≤ outgrowing.times := by decide
  obtain ⟨r, hr, hfour⟩ : ∃ r, outgrown.run .keep = .ok r ∧ r.frames = 4 := ⟨_, rfl, rfl⟩
  rcases run_unrolled (s := outgrown) rfl htimes .keep with
    ⟨e, hfail, -⟩ | ⟨r₁, r', hr₁, hr', hmachine, hbindings, hframes, hsnapshots⟩
  · cases hr.symm.trans hfail
  · cases hr.symm.trans hr₁
    exact ⟨htimes, r, r', hr, hr', hfour, hframes, hmachine, hbindings, hsnapshots⟩

end Sketch

end Easel
