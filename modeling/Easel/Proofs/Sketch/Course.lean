import Easel.Proofs.Sketch.Ownership

/-!
# The course of a run

A run makes one call after another and binds answers in between. `Run.Course` is this sequence with
the calls that were made, so what every call preserves the whole run preserves: `Course.induct` says
so once, for runs that are tidy between calls, as all runs of sketches are.
-/

namespace Easel

/-- A call that a run makes. -/
structure Call where
  /-- The index of the step that the call belongs to. -/
  step : Nat
  native : String
  args : List Value

namespace Run

variable {snapshots : Snapshots} {index : Nat} {f : Native} {args : List Value} {s : Step}
  {r r' r'' : Run} {answer : Option Value} {log log' : List Call}

/-- The calls that steps make, in order, up to the first step that fails: each step makes its call
as often as it says, with the values that its arguments have before the first time. -/
def calls (snapshots : Snapshots) : Nat → List Step → Run → List Call
  | _, [], _ => []
  | index, s :: rest, r =>
    match step snapshots index s r with
    | .ok r' => List.replicate s.times ⟨index, s.call, s.args.map (valueOf r.bindings)⟩ ++
        calls snapshots (index + 1) rest r'
    | .error _ => []

/-- `Course snapshots r log r'`: from `r` a run comes to `r'`, and makes the calls `log` of
registered natives with what it holds. -/
inductive Course (snapshots : Snapshots) : Run → List Call → Run → Prop where
  | done (r : Run) : Course snapshots r [] r
  | call {r r' r'' : Run} {f : Native} {args : List Value} {answer : Option Value}
      {log : List Call} (index : Nat) (registered : f ∈ Natives.registry.natives)
      (holds : ∀ v ∈ args, r.Holds v)
      (once : callOnce snapshots index f args r = .ok (answer, r'))
      (rest : Course snapshots r' log r'') :
      Course snapshots r (⟨index, f.name, args⟩ :: log) r''
  | bind {r r' : Run} {log : List Call} (name : String) {v : Value} (holds : r.Holds v)
      (rest : Course snapshots { r with bindings := r.bindings.insert name v } log r') :
      Course snapshots r log r'

theorem Course.append (h : Course snapshots r log r') (h' : Course snapshots r' log' r'') :
    Course snapshots r (log ++ log') r'' := by
  induction h with
  | done => exact h'
  | call index registered holds once _ ih => exact .call index registered holds once (ih h')
  | bind name holds _ ih => exact .bind name holds (ih h')

theorem mem_insert {b : Bindings} {name : String} {v : Value} {e : String × Value}
    (h : e ∈ (b.insert name v).entries) : e = (name, v) ∨ e ∈ b.entries := by
  rcases List.mem_cons.1 h with rfl | h
  · exact .inl rfl
  · exact .inr (List.mem_filter.1 h).1

/-- A run may bind what it holds. -/
theorem Tidy.bind (h : r.Tidy) (name : String) {v : Value} (hv : r.Holds v) :
    Tidy { r with bindings := r.bindings.insert name v } := by
  refine ⟨⟨fun e he => ?_, h.canvas, h.copies, h.stack⟩, h.settled⟩
  rcases mem_insert he with rfl | he
  · exact hv
  · exact h.bindings e he

/-- A tidy run stays tidy, keeps its objects and keeps what its snapshots show. -/
theorem Course.tidy (h : Course snapshots r log r') (hr : r.Tidy) : r'.Tidy ∧ Precedes r r' := by
  induction h with
  | done r => exact ⟨hr, .refl r⟩
  | call index registered holds once _ ih =>
    obtain ⟨htidy, hprecedes, -⟩ := hr.called holds (called_of_callOnce registered hr.settled once)
    obtain ⟨htidy', hprecedes'⟩ := ih htidy
    exact ⟨htidy', hprecedes.trans hprecedes'⟩
  | bind name holds _ ih =>
    obtain ⟨htidy, hprecedes⟩ := ih (hr.bind name holds)
    exact ⟨htidy, hprecedes.owns, hprecedes.snapshots⟩

/-- **What every call of a tidy run preserves, and binding an answer too, the run preserves.** The
invariant may speak of the calls made so far. -/
theorem Course.induct {P : List Call → Run → Prop} (log : List Call)
    (hcall : ∀ {log : List Call} {index : Nat} {name : String} {args : List Value} {r : Run}
      {answer : Option Value} {r' : Run}, r.Tidy → (∀ v ∈ args, r.Holds v) →
      Called snapshots index name args r answer r' → P log r → P (log ++ [⟨index, name, args⟩]) r')
    (hbind : ∀ {log : List Call} {r : Run} (name : String) (v : Value), P log r →
      P log { r with bindings := r.bindings.insert name v })
    (h : Course snapshots r log' r') (hr : r.Tidy) (hP : P log r) : P (log ++ log') r' := by
  induction h generalizing log with
  | done => rwa [List.append_nil]
  | call index registered holds once _ ih =>
    have hcalled := called_of_callOnce registered hr.settled once
    rw [List.append_cons]
    exact ih _ (hr.called holds hcalled).1 (hcall hr holds hcalled hP)
  | bind name holds _ ih => exact ih log (hr.bind name holds) (hbind name _ hP)

/-! ## Steps take their course -/

/-- A step that goes well finds its native and its arguments, and binds the last answer. -/
theorem step_eq_ok (h : step snapshots index s r = .ok r') :
    ∃ f answer r₁, Natives.registry.get? s.call = some f ∧
      s.args.mapM (argument r.bindings) = .ok (s.args.map (valueOf r.bindings)) ∧
      callTimes snapshots index f (s.args.map (valueOf r.bindings)) s.times none r =
        .ok (answer, r₁) ∧ r' = settle s answer r₁ := by
  cases hf : Natives.registry.get? s.call with
  | none => cases (step_unknown hf).symm.trans h
  | some f =>
    cases hu : s.unbound? r.bound with
    | some name => cases (step_unbound hf hu).symm.trans h
    | none =>
      rw [step_bound hf hu] at h
      obtain ⟨⟨answer, r₁⟩, hcalls, hsettle⟩ := bind_eq_ok.1 h
      cases hsettle
      exact ⟨f, answer, r₁, rfl, arguments_bound hu, hcalls, rfl⟩

theorem course_callTimes (hf : f ∈ Natives.registry.natives) (hr : r.Tidy)
    (hargs : ∀ v ∈ args, r.Holds v) {n : Nat} {last : Option Value}
    (hlast : ∀ v, last = some v → r.Holds v)
    (h : callTimes snapshots index f args n last r = .ok (answer, r')) :
    Course snapshots r (List.replicate n ⟨index, f.name, args⟩) r' ∧
      ∀ v, answer = some v → r'.Holds v := by
  induction n generalizing last r with
  | zero =>
    cases h
    exact ⟨.done _, hlast⟩
  | succ n ih =>
    obtain ⟨⟨next, r₁⟩, honce, htimes⟩ := bind_eq_ok.1 h
    obtain ⟨htidy, hprecedes, hnext⟩ := hr.called hargs (called_of_callOnce hf hr.settled honce)
    obtain ⟨hrest, hholds⟩ := ih htidy (fun v hv => hprecedes.holds (hargs v hv)) hnext htimes
    exact ⟨.call index hf hargs honce hrest, hholds⟩

theorem Tidy.holds_valueOf (h : r.Tidy) (a : Arg) : r.Holds (valueOf r.bindings a) := by
  cases a with
  | binding name =>
    cases hget : r.bindings.get? name with
    | none => simp [valueOf, hget, Holds, Value.refs]
    | some v =>
      obtain ⟨before, after, hentries, -⟩ := List.lookup_eq_some_iff.1 hget
      have hmem : (name, v) ∈ r.bindings.entries := by simp [hentries]
      simpa only [valueOf, hget, Option.getD_some] using h.bindings _ hmem
  | _ => simp [valueOf, Holds, Value.refs]

theorem Tidy.holds_values (h : r.Tidy) (as : List Arg) :
    ∀ v ∈ as.map (valueOf r.bindings), r.Holds v := by
  intro v hv
  obtain ⟨a, -, rfl⟩ := List.mem_map.1 hv
  exact h.holds_valueOf a

theorem course_settle (s : Step) (hanswer : ∀ v, answer = some v → r.Holds v) :
    Course snapshots r [] (settle s answer r) := by
  unfold settle
  split
  · refine .bind _ ?_ (.done _)
    cases answer with
    | none => simp [Holds, Value.refs]
    | some v => exact hanswer v rfl
  · exact .done r

theorem course_step (hr : r.Tidy) (h : step snapshots index s r = .ok r') :
    Course snapshots r
      (List.replicate s.times ⟨index, s.call, s.args.map (valueOf r.bindings)⟩) r' := by
  obtain ⟨f, answer, r₁, hf, -, hcalls, rfl⟩ := step_eq_ok h
  obtain ⟨hmem, hname⟩ := Registry.get?_some hf
  obtain ⟨hcourse, hanswer⟩ := course_callTimes hmem hr (hr.holds_values _) (by simp) hcalls
  rw [← hname, ← List.append_nil (List.replicate _ _)]
  exact hcourse.append (course_settle s hanswer)

/-- **Steps that go well make the calls that they say**, and nothing else happens. -/
theorem course_steps {ss : List Step} (hr : r.Tidy) (h : steps snapshots index ss r = .ok r') :
    Course snapshots r (calls snapshots index ss r) r' := by
  induction ss generalizing index r with
  | nil =>
    cases h
    exact .done _
  | cons s rest ih =>
    obtain ⟨r₁, hstep, hsteps⟩ := steps_cons_eq_ok.1 h
    have hcourse := course_step hr hstep
    simp only [calls, hstep]
    exact hcourse.append (ih (hcourse.tidy hr).1 hsteps)

end Run

namespace Sketch

/-- The calls that a run of the sketch makes, in order. -/
def calls (snapshots : Snapshots) (s : Sketch) : List Call := Run.calls snapshots 0 s.steps {}

variable {snapshots : Snapshots} {s : Sketch} {r : Run}

theorem course_run (h : s.run snapshots = .ok r) :
    Run.Course snapshots {} (s.calls snapshots) r := Run.course_steps .fresh h

/-- A sketch with a gasket that grows after it has been drawn, and is drawn again. -/
def sprouting : Sketch where
  name := "sprouting"
  steps := [
    { call := "Apol", bind := some "g" },
    { call := "Apol.draw", args := [.binding "g"] },
    { call := "Apol.enclosing", args := [.binding "g", .number 2] },
    { call := "Apol.next", args := [.binding "g"], times := 2 },
    { call := "Apol.draw", args := [.binding "g", .colour Colour.black], times := 2 },
    { call := "Apol.count", args := [.binding "g"], bind := some "n", times := 0 }]

end Sketch

end Easel
