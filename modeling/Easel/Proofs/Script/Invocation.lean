import Easel.Natives.Basic
import Easel.Proofs.Script.Calls

/-!
# The contract of an invocation

What lies on the stack decides an invocation: how many values there are, the types of the top ones
in the order they were pushed, and the value under these. Only where all three are right does the
native run, once and on exactly these arguments. `invoke_contract` goes through the cases.
-/

namespace Easel

namespace Machine

variable (m : Machine) (n : Nat)

/-- The types of the top `n` values of the stack, in the order they were pushed. -/
def topTypes : List ValueType := (m.session.topValues n).map (Value.type m.heap)

/-- The machine without `n` arguments and the value under them; nothing else differs. -/
def withoutArgs : Machine := { m with session := m.session.drop (n + 1) }

/-- The machine with what was displayed and requested since the checkpoint withdrawn. -/
def withdrawn (mark : Checkpoint) : Machine := { m with session := m.session.rollback mark }

end Machine

namespace Native

variable (f : Native)

/-- The overload of `f` at index `i` is `sig`, and `types` are its parameter types. -/
structure Matches (i : Nat) (sig : Signature) (types : List ValueType) : Prop where
  overload : f.overloads.signatures[i]? = some sig
  types : sig.types = types

theorem Matches.resolve {f : Native} {i : Nat} {sig : Signature} {types : List ValueType}
    (h : f.Matches i sig types) : f.resolve types = .ok ⟨i, sig⟩ :=
  Overloads.resolve_of_types f.name h.overload h.types

/-- What an invocation makes of an outcome of its native: a value of the promised type is delivered,
and after anything else what was displayed and requested since the checkpoint is withdrawn. -/
def conclude (promised : ValueType) (mark : Checkpoint) :
    Except Error Value × Machine → Except Error Unit × Machine
  | (.ok v, m) =>
    if v.type m.heap = promised then (.ok (), deliver promised v m)
    else (.error (.internal (.wrongResult f.name (v.type m.heap) promised)), m.withdrawn mark)
  | (.error e, m) => (.error e, m.withdrawn mark)

variable {f} {n : Nat} {m : Machine} {i : Nat} {sig : Signature}

/-- Where an overload matches but the placeholder does not lie under the arguments, the native does
not run. -/
theorem run_invoke_misplaced (hn : n ≤ m.session.depth) (h : f.Matches i sig (m.topTypes n))
    {fault : BridgeFault} (hfault : f.placeholderFault m.heap (m.session.peek? n) = some fault) :
    (f.invoke n).run m = (.error (.internal fault), m.withoutArgs n) := by
  have htake := run_takeArgs f hn h.resolve
  rw [← Session.peek?, hfault] at htake
  exact run_invoke_error f htake

/-- Where an overload matches and the placeholder lies under the arguments, the native runs. -/
theorem run_invoke_placed (hn : n ≤ m.session.depth) (h : f.Matches i sig (m.topTypes n))
    (hplaced : m.session.peek? n = some (.native f.ref)) :
    (f.invoke n).run m = f.conclude sig.result m.session.checkpoint
      ((f.run ⟨f.name, i, m.session.topValues n⟩).run (m.withoutArgs n)) := by
  have htake := run_takeArgs f hn h.resolve
  rw [← Session.peek?, hplaced] at htake
  simp only [placeholderFault, if_true] at htake
  -- The checkpoint is taken after the arguments are; they are no part of it.
  have hmark : (m.withoutArgs n).session.checkpoint = m.session.checkpoint := rfl
  rw [run_invoke f htake, run_runChecked]
  rw [← Machine.withoutArgs, hmark]
  rcases (f.run ⟨f.name, i, m.session.topValues n⟩).run (m.withoutArgs n) with ⟨e | v, m'⟩
  · rfl
  · by_cases hv : v.type m'.heap = sig.result
    · simp only [conclude, hv, if_true]
    · simp only [conclude, hv, if_false, Machine.withdrawn]

/-- **The contract of an invocation** of `f` with `n` arguments.

* With fewer than `n` values on the stack it fails with a fault of the bridge, and
* where no overload has the types of the top `n` values, it fails with a type mismatch. In both
  cases the machine stays as it was, whatever lies beneath these values.

Otherwise one overload has these types, and no other has; the values are taken and bound to its
parameters without a fault.

* If no value lies beneath them, or one that is not the placeholder of `f`, the invocation fails
  with a fault of the bridge. The values are off the stack and all else is as it was, whatever `f`
  does when it runs: it has not run.
* If the placeholder lies beneath them, `f` runs once, on these values in the order they were pushed
  and with the index of the overload, on the machine without them and the placeholder. A value of
  the promised type is then pushed, unless that type is `nothing`. -/
theorem invoke_contract (f : Native) (n : Nat) (m : Machine) :
    (m.session.depth < n →
      (f.invoke n).run m = (.error (.internal (.underflow n m.session.depth)), m)) ∧
    (n ≤ m.session.depth → (∀ sig ∈ f.overloads.signatures, sig.types ≠ m.topTypes n) →
      (f.invoke n).run m =
        (.error (.typeMismatch f.name (m.topTypes n) f.overloads.signatures), m)) ∧
    ∀ (i : Nat) (sig : Signature), n ≤ m.session.depth → f.Matches i sig (m.topTypes n) →
      (∀ (j : Nat) (other : Signature), f.Matches j other (m.topTypes n) → j = i ∧ other = sig) ∧
      ((Action.popArgs n).run m).1 = .ok (m.session.topValues n) ∧
      Args.bind m.heap f.name ⟨i, sig⟩ (m.session.topValues n) =
        .ok ⟨f.name, i, m.session.topValues n⟩ ∧
      (m.session.peek? n = none →
        (f.invoke n).run m = (.error (.internal (.missingPlaceholder f.name)), m.withoutArgs n)) ∧
      (∀ v, m.session.peek? n = some v → v ≠ .native f.ref →
        (f.invoke n).run m =
          (.error (.internal (.wrongPlaceholder f.name (v.render m.heap))), m.withoutArgs n)) ∧
      (m.session.peek? n = some (.native f.ref) →
        (f.invoke n).run m = f.conclude sig.result m.session.checkpoint
          ((f.run ⟨f.name, i, m.session.topValues n⟩).run (m.withoutArgs n))) := by
  refine ⟨fun hn => run_invoke_error f (run_takeArgs_underflow f hn), fun hn hnone => ?_,
    fun i sig hn h => ⟨fun j other h' => ?_, ?_, Args.bind_ok h.types, fun hmissing => ?_,
      fun v hv hwrong => ?_, run_invoke_placed hn h⟩⟩
  · exact run_invoke_error f
      (run_takeArgs_mismatch f hn (Overloads.resolve_of_forall_ne f.name hnone))
  · exact Overloads.index_unique h'.overload h.overload (h'.types.trans h.types.symm)
  · rw [Action.run_popArgs hn]
  · exact run_invoke_misplaced hn h (by rw [hmissing, placeholderFault])
  · refine run_invoke_misplaced hn h ?_
    rw [hv]
    cases v with
    | native ref =>
      have hother : ref ≠ f.ref := fun heq => hwrong (congrArg Value.native heq)
      simp only [placeholderFault, hother, if_false]
    | _ => rfl

/-- A native with an overload that returns a difference and one that returns nothing. -/
def difference : Native where
  name := "difference"
  overloads := Natives.overloads [.of [("a", .number)] .nothing,
    .of [("a", .number), ("b", .number)] .number]
  run args := do
    if args.overload = 0 then
      Action.modifySession Session.requestRender
      return .nothing
    else return .number ((← Natives.number args 0) - (← Natives.number args 1))

/-- The cases of the contract, one after the other: a value too few; a placeholder among the
arguments; no placeholder; the placeholder of another native, and of another one of the same name; a
result and none. -/
theorem invoke_contract_difference :
    let on (stack : List Value) : Machine := { session := { stack, renderRequests := 3 } }
    (difference.invoke 2).run (on [.number 10]) =
      (.error (.internal (.underflow 2 1)), on [.number 10]) ∧
    (difference.invoke 2).run (on [.native "difference", .number 10]) =
      (.error (.typeMismatch "difference" [.number, .native] difference.overloads.signatures),
        on [.native "difference", .number 10]) ∧
    (difference.invoke 2).run (on [.number 3, .number 10]) =
      (.error (.internal (.missingPlaceholder "difference")), on []) ∧
    (difference.invoke 2).run (on [.number 3, .number 10, .native "sum", .text "below"]) =
      (.error (.internal (.wrongPlaceholder "difference" "Native(sum)")), on [.text "below"]) ∧
    (difference.invoke 2).run (on [.number 3, .number 10, .native ⟨"difference", 1⟩]) =
      (.error (.internal (.wrongPlaceholder "difference" "Native(difference)")), on []) ∧
    (difference.invoke 2).run (on [.number 3, .number 10, .native "difference", .text "below"]) =
      (.ok (), on [.number (10 - 3), .text "below"]) ∧
    (difference.invoke 1).run (on [.number 10, .native "difference"]) =
      (.ok (), { session := { redrawPending := true, renderRequests := 4 } }) := by
  intro on
  have hpair : ∀ below, difference.Matches 1 (.of [("a", .number), ("b", .number)] .number)
      ((on (.number 3 :: .number 10 :: below)).topTypes 2) := fun _ => ⟨rfl, rfl⟩
  obtain ⟨hfew, -⟩ := invoke_contract difference 2 (on [.number 10])
  obtain ⟨-, hmismatch, -⟩ := invoke_contract difference 2 (on [.native "difference", .number 10])
  obtain ⟨-, -, -, hmissing, -⟩ :=
    (invoke_contract difference 2 (on [.number 3, .number 10])).2.2 _ _ (by decide) (hpair [])
  obtain ⟨-, -, -, -, hwrong, -⟩ := (invoke_contract difference 2
    (on [.number 3, .number 10, .native "sum", .text "below"])).2.2 _ _ (by decide) (hpair _)
  obtain ⟨-, -, -, -, hnamesake, -⟩ := (invoke_contract difference 2
    (on [.number 3, .number 10, .native ⟨"difference", 1⟩])).2.2 _ _ (by decide) (hpair _)
  obtain ⟨-, -, -, -, -, hplaced⟩ := (invoke_contract difference 2
    (on [.number 3, .number 10, .native "difference", .text "below"])).2.2 _ _ (by decide) (hpair _)
  obtain ⟨-, -, -, -, -, hquiet⟩ := (invoke_contract difference 1
    (on [.number 10, .native "difference"])).2.2 0 (.of [("a", .number)] .nothing) (by decide)
      ⟨rfl, rfl⟩
  exact ⟨hfew (by decide), hmismatch (by decide) (by decide), hmissing rfl,
    hwrong (.native "sum") rfl (by simp [difference, ref]),
    hnamesake (.native ⟨"difference", 1⟩) rfl (by simp [difference, ref]), hplaced rfl, hquiet rfl⟩

end Native

end Easel
