import Easel.Proofs.Script.Action
import Easel.Proofs.Script.Resolution

/-!
# What invocations and calls do

`invoke` and `call` as equations. A call is decided by the types of its arguments. Where no overload
matches them, the call fails and leaves the machine as it was. Where one does, the native runs on
the caller's machine exactly, and the call adds only the check of the result, the stack discipline
and the withdrawal after a failure.
-/

namespace Easel

namespace Session

variable (s : Session)

/-- The session without the top `n` values of its stack. -/
def drop (n : Nat) : Session := { s with stack := s.stack.drop n }

theorem depth_pop : s.pop.depth = s.depth - 1 := by
  simp only [pop, depth, List.length_tail]

theorem truncate_sub {s : Session} {n : Nat} (h : n ≤ s.depth) :
    s.truncate (s.depth - n) = s.drop n := by
  have hn : s.stack.length - (s.stack.length - n) = n := by
    have : n ≤ s.stack.length := h
    omega
  simp only [truncate, drop, depth, hn]

theorem pop_drop (n : Nat) : (s.drop n).pop = s.drop (n + 1) := by
  simp only [pop, drop, List.tail_drop]

theorem foldl_push (args : List Value) :
    args.foldl push s = { s with stack := args.reverse ++ s.stack } := by
  induction args generalizing s with
  | nil => rfl
  | cons v vs ih =>
    rw [List.foldl_cons, ih]
    simp [push]

/-- The session in which a call of `f` is invoked. -/
def frame (f : Native) (args : List Value) : Session :=
  args.foldl push (s.push (.native f.ref))

variable (f : Native) (args : List Value)

theorem stack_frame :
    (s.frame f args).stack = args.reverse ++ .native f.ref :: s.stack := by
  rw [frame, foldl_push]
  rfl

theorem length_le_depth_frame : args.length ≤ (s.frame f args).depth := by
  simp only [depth, stack_frame, List.length_append, List.length_reverse]
  omega

theorem topValues_frame : (s.frame f args).topValues args.length = args := by
  rw [topValues, stack_frame, ← List.length_reverse, List.take_left, List.reverse_reverse]

theorem placeholder_frame : (s.frame f args).stack[args.length]? = some (.native f.ref) := by
  rw [stack_frame, List.getElem?_append_right (by simp)]
  simp

theorem drop_frame : (s.frame f args).drop (args.length + 1) = s := by
  have hlen : (args.reverse ++ [Value.native f.ref]).length = args.length + 1 := by simp
  have hstack : (s.frame f args).stack.drop (args.length + 1) = s.stack := by
    rw [stack_frame, List.append_cons, ← hlen, List.drop_left]
  rw [drop, hstack, frame, foldl_push]
  rfl

theorem truncate_frame : (s.frame f args).truncate s.depth = s := by
  have hd : (s.frame f args).depth - (args.length + 1) = s.depth := by
    simp only [depth, stack_frame, List.length_append, List.length_reverse, List.length_cons]
    omega
  have hle : args.length + 1 ≤ (s.frame f args).depth := by
    simp only [depth, stack_frame, List.length_append, List.length_reverse, List.length_cons]
    omega
  rw [← hd, truncate_sub hle, drop_frame]

end Session

namespace Native

variable (f : Native) {m : Machine} {n : Nat}

/-! ## Taking the arguments -/

/-- What is wrong with the value that lies where the placeholder of `f` should be. -/
def placeholderFault (h : Heap) : Option Value → Option BridgeFault
  | some (.native ref) =>
    if ref = f.ref then none else some (.wrongPlaceholder f.name (Value.render h (.native ref)))
  | some other => some (.wrongPlaceholder f.name (other.render h))
  | none => some (.missingPlaceholder f.name)

theorem run_takeArgs_underflow (h : m.session.depth < n) :
    (f.takeArgs n).run m = (.error (.internal (.underflow n m.session.depth)), m) := by
  simp only [takeArgs, Action.run_bind, Action.run_argTypes_underflow h]

/-- Where no overload matches, nothing is taken. -/
theorem run_takeArgs_mismatch {e : Error} (h : n ≤ m.session.depth)
    (hr : f.resolve ((m.session.topValues n).map (Value.type m.heap)) = .error e) :
    (f.takeArgs n).run m = (.error e, m) := by
  simp only [takeArgs, Action.run_bind, Action.run_argTypes h, Action.run_lift, hr]

/-- Where an overload matches, the arguments and the value under them are taken, whether that value
is the placeholder or not. -/
theorem run_takeArgs {r : Resolved} (h : n ≤ m.session.depth)
    (hr : f.resolve ((m.session.topValues n).map (Value.type m.heap)) = .ok r) :
    (f.takeArgs n).run m =
      (match f.placeholderFault m.heap m.session.stack[n]? with
        | none => .ok (⟨f.name, r.index, m.session.topValues n⟩, r.signature.result)
        | some fault => .error (.internal fault),
      { m with session := m.session.drop (n + 1) }) := by
  have hbind : Args.bind m.heap f.name r (m.session.topValues n) =
      .ok ⟨f.name, r.index, m.session.topValues n⟩ :=
    Args.bind_ok (Overloads.resolve_ok hr).2
  have htop : (m.session.drop n).stack.head? = m.session.stack[n]? := by
    simp only [Session.drop, List.head?_drop]
  simp only [takeArgs, Action.run_bind, Action.run_argTypes h, Action.run_lift, hr,
    Action.run_popArgs h, Session.truncate_sub h, Action.run_heap, hbind, Action.run_pop, htop,
    Session.pop_drop]
  cases m.session.stack[n]? with
  | none => rfl
  | some v =>
    cases v with
    | native ref =>
      simp only [placeholderFault]
      split <;> rfl
    | _ => rfl

/-! ## Running the native -/

/-- A failure of the native or a result of another type than the promised one withdraws what was
displayed and requested. -/
theorem run_runChecked (a : Args) (result : ValueType) (m : Machine) :
    (f.runChecked a result).run m = match (f.run a).run m with
      | (.ok v, m') =>
        if v.type m'.heap = result then (.ok v, m')
        else (.error (.internal (.wrongResult f.name (v.type m'.heap) result)),
          { m' with session := m'.session.rollback m.session.checkpoint })
      | (.error e, m') =>
        (.error e, { m' with session := m'.session.rollback m.session.checkpoint }) := by
  simp only [runChecked, Action.run_bind, Action.run_session, Action.run_tryCatch,
    Action.run_modifySession, Action.run_throw]
  rcases (f.run a).run m with ⟨_ | v, m'⟩
  · rfl
  · by_cases h : v.type m'.heap = result
    · simp only [Action.run_heap, h, ne_eq, not_true_eq_false, if_false, if_true, Action.run_pure]
    · simp only [Action.run_heap, h, ne_eq, not_false_eq_true, if_false, if_true,
        Action.run_fault, Action.run_modifySession, Action.run_bind]

/-- The machine after a result is pushed, unless the overload promises none. -/
def deliver (result : ValueType) (v : Value) (m : Machine) : Machine :=
  if result = .nothing then m else { m with session := m.session.push v }

theorem run_invoke {a : Args} {result : ValueType} {m₁ : Machine}
    (h : (f.takeArgs n).run m = (.ok (a, result), m₁)) :
    (f.invoke n).run m = match (f.runChecked a result).run m₁ with
      | (.ok v, m') => (.ok (), deliver result v m')
      | (.error e, m') => (.error e, m') := by
  simp only [invoke, Action.run_bind, h]
  rcases (f.runChecked a result).run m₁ with ⟨_ | v, m'⟩
  · rfl
  · by_cases hr : result = .nothing
    · simp only [hr, deliver, ne_eq, not_true_eq_false, if_true, if_false, Action.run_pure]
    · simp only [hr, deliver, ne_eq, not_false_eq_true, if_true, if_false,
        Action.run_modifySession]

theorem run_invoke_error {e : Error} {m₁ : Machine} (h : (f.takeArgs n).run m = (.error e, m₁)) :
    (f.invoke n).run m = (.error e, m₁) := by
  simp only [invoke, Action.run_bind, h]

/-! ## Calling -/

/-- Takes the result of a call, if the stack is deeper than it was before. -/
def collect (depth : Nat) (m : Machine) : Except Error (Option Value) × Machine :=
  if depth < m.session.depth then
    (.ok m.session.stack.head?, { m with session := m.session.pop })
  else (.ok none, m)

variable {args : List Value}

theorem run_takeArgs_frame {r : Resolved} (hr : f.resolve (args.map (Value.type m.heap)) = .ok r) :
    (f.takeArgs args.length).run { m with session := m.session.frame f args } =
      (.ok (⟨f.name, r.index, args⟩, r.signature.result), m) := by
  rw [← Session.topValues_frame m.session f args] at hr
  rw [run_takeArgs f (Session.length_le_depth_frame m.session f args) hr]
  simp only [Session.placeholder_frame, placeholderFault, Session.topValues_frame,
    Session.drop_frame, if_true]

theorem run_call_invoke :
    (f.call args).run m =
      match (f.invoke args.length).run { m with session := m.session.frame f args } with
        | (.ok (), m') => collect m.session.depth m'
        | (.error e, m') =>
          (.error e, { m' with session := m'.session.truncate m.session.depth }) := by
  simp only [call, Action.run_bind, Action.run_session, Action.run_modifySession,
    Action.run_tryCatch, Action.run_throw, Session.frame]
  rcases (f.invoke args.length).run _ with ⟨_ | ⟨⟩, m'⟩
  · rfl
  · by_cases h : m.session.depth < m'.session.depth
    · simp only [collect, h, if_true, Action.run_pop]
    · simp only [collect, h, if_false, Action.run_pure]

/-- A call that no overload matches leaves the machine as it was. -/
theorem run_call_mismatch {e : Error}
    (hr : f.resolve (args.map (Value.type m.heap)) = .error e) :
    (f.call args).run m = (.error e, m) := by
  rw [← Session.topValues_frame m.session f args] at hr
  have htake := run_takeArgs_mismatch f (m := { m with session := m.session.frame f args })
    (Session.length_le_depth_frame m.session f args) hr
  simp only [run_call_invoke, run_invoke_error f htake, Session.truncate_frame]

/-- A call that an overload matches runs the native on the machine of the caller. -/
theorem run_call {r : Resolved} (hr : f.resolve (args.map (Value.type m.heap)) = .ok r) :
    (f.call args).run m =
      match (f.runChecked ⟨f.name, r.index, args⟩ r.signature.result).run m with
        | (.ok v, m') => collect m.session.depth (deliver r.signature.result v m')
        | (.error e, m') =>
          (.error e, { m' with session := m'.session.truncate m.session.depth }) := by
  rw [run_call_invoke, run_invoke f (run_takeArgs_frame f hr)]
  rcases (f.runChecked _ _).run m with ⟨_ | v, m'⟩ <;> rfl

end Native

end Easel
