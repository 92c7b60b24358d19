import Easel.Proofs.Natives.Calls
import Easel.Proofs.Natives.Lookup
import Easel.Proofs.Sketch.Canvases
import Easel.Proofs.Sketch.Progress

/-!
# What a step comes to

A step fails at the first of these: its native is not registered, an argument names a binding that
there is not, or a call fails. Calls never fail by a fault of the bridge, so a script can be told of
every error of a run.
-/

namespace Easel

/-- The name that an argument reads, if it is not among the bound ones. -/
def Arg.unbound? (bound : String → Bool) : Arg → Option String
  | .binding name => if bound name then none else some name
  | _ => none

/-- The first name that the arguments read and that is not among the bound ones. -/
def Step.unbound? (bound : String → Bool) (s : Step) : Option String :=
  s.args.findSome? (Arg.unbound? bound)

namespace Run

/-! ## Arguments -/

/-- Whether a name is bound. -/
def bound (r : Run) (name : String) : Bool := (r.bindings.get? name).isSome

/-- The value of an argument, `nothing` for a name that is not bound. -/
def valueOf (b : Bindings) : Arg → Value
  | .number x => .number x
  | .colour c => .colour c
  | .text s => .text s
  | .binding name => (b.get? name).getD .nothing

variable {snapshots : Snapshots} {index : Nat} {f : Native} {args : List Value} {s : Step}
  {r r' : Run} {e : Error}

theorem unbound?_binding_eq_some {n name : String} :
    (Arg.binding n).unbound? r.bound = some name ↔ r.bindings.get? n = none ∧ n = name := by
  cases hget : r.bindings.get? n <;> simp [Arg.unbound?, bound, hget]

theorem unbound?_binding_eq_none {n : String} :
    (Arg.binding n).unbound? r.bound = none ↔ ∃ v, r.bindings.get? n = some v := by
  cases hget : r.bindings.get? n <;> simp [Arg.unbound?, bound, hget]

theorem argument_unbound {a : Arg} {name : String} (h : a.unbound? r.bound = some name) :
    argument r.bindings a = .error (.unknownBinding name) := by
  cases a with
  | binding n =>
    obtain ⟨hget, rfl⟩ := unbound?_binding_eq_some.1 h
    simp only [argument, hget]
  | _ => simp [Arg.unbound?] at h

theorem argument_bound {a : Arg} (h : a.unbound? r.bound = none) :
    argument r.bindings a = .ok (valueOf r.bindings a) := by
  cases a with
  | binding n =>
    obtain ⟨v, hget⟩ := unbound?_binding_eq_none.1 h
    simp only [argument, valueOf, hget, Option.getD_some]
  | _ => rfl

/-- The arguments are evaluated left to right, and the first that is not bound is named. -/
theorem arguments_unbound {as : List Arg} {name : String}
    (h : as.findSome? (Arg.unbound? r.bound) = some name) :
    as.mapM (argument r.bindings) = .error (.unknownBinding name) := by
  induction as with
  | nil => simp at h
  | cons a as ih =>
    rw [List.mapM_cons]
    cases ha : a.unbound? r.bound with
    | some n =>
      obtain rfl : n = name := by simpa [List.findSome?_cons, ha] using h
      rw [argument_unbound ha]
      rfl
    | none =>
      rw [argument_bound ha, ih (by simpa [List.findSome?_cons, ha] using h)]
      rfl

theorem arguments_bound {as : List Arg} (h : as.findSome? (Arg.unbound? r.bound) = none) :
    as.mapM (argument r.bindings) = .ok (as.map (valueOf r.bindings)) := by
  induction as with
  | nil => rfl
  | cons a as ih =>
    simp only [List.findSome?_eq_none_iff, List.mem_cons, forall_eq_or_imp] at h
    rw [List.mapM_cons, argument_bound h.1, ih (List.findSome?_eq_none_iff.2 h.2)]
    rfl

/-! ## Calls -/

/-- Calls of registered natives fail because no overload matches or because a field is unknown. -/
theorem callTimes_error (hf : f ∈ Natives.registry.natives) {n : Nat} {last : Option Value}
    (h : callTimes snapshots index f args n last r = .error e) :
    (∃ attempted, e = .typeMismatch f.name attempted f.overloads.signatures) ∨
      ∃ owner field known, e = .unknownField owner field known := by
  induction n generalizing last r with
  | zero => cases h
  | succ n ih =>
    simp only [callTimes, callOnce] at h
    rcases Natives.call_cases hf args r.machine with
      ⟨answer, m', hcall, -⟩ | ⟨attempted, hcall⟩ | ⟨owner, field, known, -, hcall⟩
    · rw [hcall] at h
      exact ih h
    · rw [hcall] at h
      cases h
      exact .inl ⟨attempted, rfl⟩
    · rw [hcall] at h
      cases h
      exact .inr ⟨owner, field, known, rfl⟩

/-- No call is made if no overload matches. -/
theorem callTimes_mismatch {n : Nat} (hn : 0 < n) (last : Option Value)
    (hr : f.resolve (args.map (Value.type r.machine.heap)) = .error e) :
    callTimes snapshots index f args n last r = .error e := by
  cases n with
  | zero => omega
  | succ n =>
    simp only [callTimes, callOnce, Native.run_call_mismatch f hr]
    rfl

/-- What is known of a run after the calls of a step: the heap has evolved, no name was bound, and
the last answer has the type `t`. -/
structure Answered (r : Run) (t : ValueType) (answer : Option Value) (r' : Run) : Prop where
  evolves : r.machine.heap.Evolves r'.machine.heap
  bindings : r'.bindings = r.bindings
  type : (answer.getD .nothing).type r'.machine.heap = t
  live : (answer.getD .nothing).Live r'.machine.heap

/-- A call that an overload matches gives an answer of its result type, or a field is unknown. -/
theorem callOnce_answered (snapshots : Snapshots) (index : Nat)
    (hf : f ∈ Natives.registry.natives) {chosen : Resolved}
    (hr : f.resolve (args.map (Value.type r.machine.heap)) = .ok chosen) :
    (∃ answer r', callOnce snapshots index f args r = .ok (answer, r') ∧
      Answered r chosen.signature.result answer r') ∨
    ∃ owner field known,
      callOnce snapshots index f args r = .error (.unknownField owner field known) := by
  obtain ⟨d, hfits, -, -, hcall⟩ := Natives.call_deed hf hr
  rcases d.outcome_ok_or chosen.signature.result r.machine with
    ⟨answer, m', hout⟩ | ⟨owner, field, known, -, hout⟩
  · obtain ⟨hevolves, htype, hlive⟩ := Deed.outcome_ok hfits hout
    have hframe := evolves_takeFrame snapshots index { r with machine := m' }
    refine .inl ⟨answer, takeFrame snapshots index { r with machine := m' }, ?_, ?_⟩
    · simp only [callOnce, hcall, hout]
    · exact ⟨hevolves.trans hframe, bindings_takeFrame _ _ _,
        (hlive.type_evolves hframe).trans htype, hlive.evolves hframe⟩
  · refine .inr ⟨owner, field, known, ?_⟩
    simp only [callOnce, hcall, hout]

/-- Calls made again find their arguments of the same types, whatever was done to the objects. -/
theorem callTimes_answered (snapshots : Snapshots) (index : Nat)
    (hf : f ∈ Natives.registry.natives) {chosen : Resolved} {n : Nat} (hn : 0 < n)
    (last : Option Value) (hlive : ∀ v ∈ args, v.Live r.machine.heap)
    (hr : f.resolve (args.map (Value.type r.machine.heap)) = .ok chosen) :
    (∃ answer r', callTimes snapshots index f args n last r = .ok (answer, r') ∧
      Answered r chosen.signature.result answer r') ∨
    ∃ owner field known,
      callTimes snapshots index f args n last r = .error (.unknownField owner field known) := by
  induction n generalizing last r with
  | zero => omega
  | succ n ih =>
    rcases callOnce_answered snapshots index hf hr with
      ⟨answer, r₁, honce, h₁⟩ | ⟨owner, field, known, honce⟩
    · have hstep : callTimes snapshots index f args (n + 1) last r =
          callTimes snapshots index f args n answer r₁ := by
        simp only [callTimes, honce]
        rfl
      rw [hstep]
      by_cases hzero : n = 0
      · subst hzero
        exact .inl ⟨answer, r₁, rfl, h₁⟩
      · have htypes : args.map (Value.type r₁.machine.heap) =
            args.map (Value.type r.machine.heap) :=
          List.map_congr_left fun v hv => (hlive v hv).type_evolves h₁.evolves
        rcases ih (by omega) answer (fun v hv => (hlive v hv).evolves h₁.evolves)
            (htypes ▸ hr) with ⟨answer', r', hrest, h'⟩ | hfield
        · exact .inl ⟨answer', r', hrest, h₁.evolves.trans h'.evolves,
            h'.bindings.trans h₁.bindings, h'.type, h'.live⟩
        · exact .inr hfield
    · refine .inr ⟨owner, field, known, ?_⟩
      simp only [callTimes, honce]
      rfl

/-! ## Steps -/

/-- Binds the last result of a step, if the step binds one. -/
def settle (s : Step) (answer : Option Value) (r : Run) : Run :=
  match s.bind with
  | some name => { r with bindings := r.bindings.insert name (answer.getD .nothing) }
  | none => r

theorem step_unknown (h : Natives.registry.get? s.call = none) :
    step snapshots index s r =
      .error (.unknownCallable s.call (Natives.registry.suggest? s.call)) := by
  simp only [step, Registry.lookup, h]
  rfl

theorem step_unbound (hf : Natives.registry.get? s.call = some f) {name : String}
    (h : s.unbound? r.bound = some name) :
    step snapshots index s r = .error (.unknownBinding name) := by
  simp only [step, Registry.lookup, hf, arguments_unbound h]
  rfl

theorem step_bound (hf : Natives.registry.get? s.call = some f) (h : s.unbound? r.bound = none) :
    step snapshots index s r =
      (callTimes snapshots index f (s.args.map (valueOf r.bindings)) s.times none r >>=
        fun called => .ok (settle s called.1 called.2)) := by
  simp only [step, Registry.lookup, hf, arguments_bound h, settle]
  cases s.bind <;> rfl

/-- What a step calls: its native, and the values of its arguments. -/
def prepare (s : Step) (b : Bindings) : Except Error (Native × List Value) := do
  let f ← Natives.registry.lookup s.call
  let args ← s.args.mapM (argument b)
  return (f, args)

theorem prepare_eq_ok {b : Bindings} (h : prepare s b = .ok (f, args)) :
    f ∈ Natives.registry.natives ∧ f.name = s.call := by
  obtain ⟨f', hf, hrest⟩ := bind_eq_ok.1 h
  obtain ⟨args', -, hpair⟩ := bind_eq_ok.1 hrest
  cases hpair
  cases hget : Natives.registry.get? s.call with
  | none => simp [Registry.lookup, hget] at hf
  | some f' =>
    obtain rfl : f' = f := by simpa [Registry.lookup, hget] using hf
    exact Registry.get?_some hget

/-- A step finds out what it calls, makes its calls and settles the last answer. -/
theorem step_eq_bind (snapshots : Snapshots) (index : Nat) (s : Step) (r : Run) :
    step snapshots index s r = (prepare s r.bindings >>= fun call =>
      callTimes snapshots index call.1 call.2 s.times none r >>= fun called =>
        .ok (settle s called.1 called.2)) := by
  simp only [step, prepare]
  cases Natives.registry.lookup s.call with
  | error e => rfl
  | ok f =>
    cases s.args.mapM (argument r.bindings) with
    | error e => rfl
    | ok args =>
      simp only [settle, bind, Except.bind, pure, Except.pure]
      cases callTimes snapshots index f args s.times none r with
      | error e => rfl
      | ok called => cases s.bind <;> rfl

theorem step_unprepared (h : prepare s r.bindings = .error e) :
    step snapshots index s r = .error e := by
  rw [step_eq_bind, h]
  rfl

theorem step_prepared (h : prepare s r.bindings = .ok (f, args)) :
    step snapshots index s r =
      (callTimes snapshots index f args s.times none r >>= fun called =>
        .ok (settle s called.1 called.2)) := by
  rw [step_eq_bind, h]
  rfl

/-! ## Changes that calls do not notice

A change of the run that commutes with every call commutes with a step. The step may then have
another number. -/

section Commutes

variable {φ : Run → Run} {index' : Nat}

theorem callTimes_commutes
    (h : ∀ r, callOnce snapshots index' f args (φ r) =
      (callOnce snapshots index f args r).map fun called => (called.1, φ called.2))
    (n : Nat) (last : Option Value) (r : Run) :
    callTimes snapshots index' f args n last (φ r) =
      (callTimes snapshots index f args n last r).map fun called => (called.1, φ called.2) := by
  induction n generalizing last r with
  | zero => rfl
  | succ n ih =>
    simp only [callTimes, h]
    cases callOnce snapshots index f args r with
    | error e => rfl
    | ok called => exact ih called.1 called.2

theorem step_commutes (hbindings : ∀ r, (φ r).bindings = r.bindings)
    (hsettle : ∀ answer r, settle s answer (φ r) = φ (settle s answer r))
    (h : ∀ f args, prepare s r.bindings = .ok (f, args) → ∀ r,
      callOnce snapshots index' f args (φ r) =
        (callOnce snapshots index f args r).map fun called => (called.1, φ called.2)) :
    step snapshots index' s (φ r) = (step snapshots index s r).map φ := by
  rw [step_eq_bind, step_eq_bind, hbindings]
  cases hp : prepare s r.bindings with
  | error e => rfl
  | ok call =>
    simp only [bind, Except.bind, callTimes_commutes (h call.1 call.2 hp)]
    cases callTimes snapshots index call.1 call.2 s.times none r with
    | error e => rfl
    | ok called => exact congrArg Except.ok (hsettle called.1 called.2)

end Commutes

end Run

/-- An error that a script can be to blame for. -/
inductive Error.OfScript : Error → Prop where
  | unknownCallable (name : String) (suggestion : Option String) :
      OfScript (.unknownCallable name suggestion)
  | unknownBinding (name : String) : OfScript (.unknownBinding name)
  | typeMismatch (name : String) (attempted : List ValueType) (available : List Signature) :
      OfScript (.typeMismatch name attempted available)
  | unknownField (owner : ObjectClass) (field : String) (known : List String) :
      OfScript (.unknownField owner field known)

theorem Run.step_error {snapshots : Snapshots} {index : Nat} {s : Step} {r : Run} {e : Error}
    (h : step snapshots index s r = .error e) : e.OfScript := by
  cases hf : Natives.registry.get? s.call with
  | none =>
    cases (step_unknown hf).symm.trans h
    exact .unknownCallable _ _
  | some f =>
    cases hu : s.unbound? r.bound with
    | some name =>
      cases (step_unbound hf hu).symm.trans h
      exact .unknownBinding name
    | none =>
      rw [step_bound hf hu] at h
      cases hcalls :
          callTimes snapshots index f (s.args.map (valueOf r.bindings)) s.times none r with
      | ok called =>
        rw [hcalls] at h
        cases h
      | error e' =>
        rw [hcalls] at h
        cases h
        rcases callTimes_error (Registry.get?_some hf).1 hcalls with
          ⟨attempted, rfl⟩ | ⟨owner, field, known, rfl⟩
        · exact .typeMismatch _ _ _
        · exact .unknownField owner field known

theorem Error.OfScript.isRecoverable {e : Error} (h : e.OfScript) : e.isRecoverable = true := by
  cases h <;> rfl

/-- **Scripts do not reach the faults of the bridge**, on whatever machine a registered native is
called and with whatever arguments; so every error of a run is one of a script, and one that the
script can be told of. -/
theorem Natives.faultless :
    (∀ f ∈ registry.natives, ∀ (args : List Value) (m : Machine),
      (∃ answer m', (f.call args).run m = (.ok answer, m') ∧ m.heap.Evolves m'.heap) ∨
      (∃ attempted, (f.call args).run m =
        (.error (.typeMismatch f.name attempted f.overloads.signatures), m)) ∨
      (∃ owner field known, f.name ∈ ["Point.get", "Circle.get"] ∧
        (f.call args).run m = (.error (.unknownField owner field known), m))) ∧
    ∀ (snapshots : Snapshots) (s : Sketch) (e : Error), s.run snapshots = .error e →
      e.OfScript ∧ e.isRecoverable = true := by
  refine ⟨fun f hf args m => call_cases hf args m, ?_⟩
  intro snapshots s e h
  obtain ⟨k, r, step, -, -, hstep⟩ := Sketch.fails_of_run h
  have hscript := Run.step_error hstep
  exact ⟨hscript, hscript.isRecoverable⟩

/-- A sketch that asks a point for a field that points do not have. -/
def Sketch.askForDepth : Sketch where
  name := "depth"
  steps := [
    { call := "Point", args := [.number 1, .number 2], bind := some "p" },
    { call := "Point.get", args := [.binding "p", .text "z"] }]

theorem Natives.faultless_askForDepth :
    Point.get ∈ registry.natives ∧ ∃ e, Sketch.askForDepth.run .skip = .error e ∧ e.OfScript := by
  have hrun : Sketch.askForDepth.run .skip =
      .error (.unknownField .point "z" ["x", "y"]) := rfl
  have hmem : Point.get ∈ registry.natives :=
    (Registry.get?_some (show registry.get? "Point.get" = some Point.get from rfl)).1
  exact ⟨hmem, _, hrun, (faultless.2 _ _ _ hrun).1⟩

end Easel
