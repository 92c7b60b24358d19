import Easel.Natives.Generators
import Easel.Proofs.Script.Calls

/-!
# Failed calls leave no trace

A native may use the session of its caller: it pushes and pops, displays, asks for redraws, takes
checkpoints, rolls back and invokes other natives. `HostRun` lists these operations, with the two
rules that a native has to keep: it leaves alone what lay on the stack when it was entered, and it
rolls back to checkpoints of its own run only. A call of a native that keeps them either succeeds or
leaves the session as it was.
-/

namespace Easel

/-- `HostRun entry marks s t`: a native that was entered with `entry` values on the stack, and that
has taken the checkpoints `marks` since, can bring the session from `s` to `t`. -/
inductive HostRun : Nat → List Checkpoint → Session → Session → Prop where
  | done {entry : Nat} {marks : List Checkpoint} {s : Session} : HostRun entry marks s s
  | push {entry : Nat} {marks : List Checkpoint} {s t : Session} (v : Value)
      (next : HostRun entry marks (s.push v) t) : HostRun entry marks s t
  /-- What lay on the stack at entry is left alone. -/
  | pop {entry : Nat} {marks : List Checkpoint} {s t : Session} (deep : entry ≤ s.pop.depth)
      (next : HostRun entry marks s.pop t) : HostRun entry marks s t
  | display {entry : Nat} {marks : List Checkpoint} {s t : Session} (r : ObjectRef) (c : Colour)
      (next : HostRun entry marks (s.display r c) t) : HostRun entry marks s t
  | requestRender {entry : Nat} {marks : List Checkpoint} {s t : Session}
      (next : HostRun entry marks s.requestRender t) : HostRun entry marks s t
  | takeRedraw {entry : Nat} {marks : List Checkpoint} {s t : Session}
      (next : HostRun entry marks s.takeRedraw t) : HostRun entry marks s t
  | checkpoint {entry : Nat} {marks : List Checkpoint} {s t : Session}
      (next : HostRun entry (s.checkpoint :: marks) s t) : HostRun entry marks s t
  | rollback {entry : Nat} {marks : List Checkpoint} {s t : Session} (c : Checkpoint)
      (own : c ∈ marks) (next : HostRun entry marks (s.rollback c) t) : HostRun entry marks s t
  /-- Another native is invoked. It takes its arguments and the placeholder under them off the
  stack, and what it does in its turn is a part of this run. -/
  | invoke {entry : Nat} {marks : List Checkpoint} {s t : Session} (g : Native) (argc : Nat)
      (h : Heap)
      (deep : entry ≤ ((g.takeArgs argc).run ⟨h, s⟩).2.session.depth)
      (host : ∀ a result m, (g.takeArgs argc).run ⟨h, s⟩ = (.ok (a, result), m) →
        HostRun entry marks m.session ((g.run a).run m).2.session)
      (next : HostRun entry marks ((g.invoke argc).run ⟨h, s⟩).2.session t) :
      HostRun entry marks s t

/-- `f` keeps the rules of `HostRun` when it is called with `args` on `m`. -/
def Native.Disciplined (f : Native) (args : List Value) (m : Machine) : Prop :=
  ∀ r, f.resolve (args.map (Value.type m.heap)) = .ok r →
    HostRun m.session.depth [] m.session
      ((f.run ⟨f.name, r.index, args⟩).run m).2.session

/-- The session `s` holds all of `b`, below what came to the stack and the canvas since. -/
structure Session.Above (b s : Session) : Prop where
  stack : b.stack <:+ s.stack
  canvas : b.canvas.toList <+: s.canvas.toList

namespace Session.Above

variable {b s : Session}

theorem refl (s : Session) : Above s s := ⟨List.suffix_refl _, List.prefix_refl _⟩

theorem size_canvas_le (h : Above b s) : b.canvas.size ≤ s.canvas.size := by
  simpa using h.canvas.length_le

theorem push (h : Above b s) (v : Value) : Above b (s.push v) :=
  ⟨h.stack.trans (List.suffix_cons v s.stack), h.canvas⟩

/-- Values may be taken off as long as `b` is not reached. -/
theorem drop (h : Above b s) {n : Nat} (hn : b.depth ≤ (s.drop n).depth) :
    Above b (s.drop n) :=
  ⟨List.suffix_of_suffix_length_le h.stack (List.drop_suffix n s.stack) hn, h.canvas⟩

theorem pop (h : Above b s) (hs : b.depth ≤ s.pop.depth) : Above b s.pop :=
  ⟨List.suffix_of_suffix_length_le h.stack (List.tail_suffix s.stack) hs, h.canvas⟩

theorem display (h : Above b s) (r : ObjectRef) (c : Colour) : Above b (s.display r c) := by
  refine ⟨h.stack, h.canvas.trans ?_⟩
  simp only [Session.display, Array.toList_push]
  exact List.prefix_append _ _

theorem toList_canvas_rollback (s : Session) (c : Checkpoint) :
    (s.rollback c).canvas.toList = s.canvas.toList.take c.canvasSize := by
  simp [Session.rollback, List.extract_eq_take_drop]

/-- Going back to a moment when the canvas of `b` was there already keeps it. -/
theorem rollback (h : Above b s) {c : Checkpoint} (hc : b.canvas.size ≤ c.canvasSize) :
    Above b (s.rollback c) := by
  refine ⟨h.stack, ?_⟩
  rw [toList_canvas_rollback]
  exact List.prefix_take_iff.2 ⟨h.canvas, hc⟩

/-- As long as the canvas of `b` is there, its length is all that a checkpoint needs of it. -/
theorem canvas_rollback (h : b.canvas.toList <+: s.canvas.toList) :
    (s.rollback b.checkpoint).canvas = b.canvas := by
  apply Array.toList_inj.1
  rw [toList_canvas_rollback]
  exact (List.prefix_iff_eq_take.1 h).symm

/-- Withdrawing and truncating gives `b` back. -/
theorem restore (h : Above b s) : (s.rollback b.checkpoint).truncate b.depth = b := by
  have hcanvas := canvas_rollback h.canvas
  have hstack : s.stack.drop (s.stack.length - b.stack.length) = b.stack :=
    (List.suffix_iff_eq_drop.1 h.stack).symm
  cases b
  simp only [truncate, Session.rollback, checkpoint, depth] at *
  simp only [hcanvas, hstack]

end Session.Above

theorem Session.rollback_checkpoint (s : Session) : s.rollback s.checkpoint = s := by
  simp [Session.rollback, Session.checkpoint]

theorem Session.truncate_depth (s : Session) : s.truncate s.depth = s := by
  simp [Session.truncate]

/-! ## What a native can reach -/

/-- Invoking takes the arguments and the placeholder off the stack or leaves the session alone. -/
theorem Native.session_takeArgs (f : Native) (n : Nat) (m : Machine) :
    ((f.takeArgs n).run m).2.session = m.session ∨
      ((f.takeArgs n).run m).2.session = m.session.drop (n + 1) := by
  by_cases hn : m.session.depth < n
  · rw [run_takeArgs_underflow f hn]
    exact .inl rfl
  · have hle : n ≤ m.session.depth := by omega
    cases hr : f.resolve ((m.session.topValues n).map (Value.type m.heap)) with
    | error e =>
      rw [run_takeArgs_mismatch f hle hr]
      exact .inl rfl
    | ok r =>
      rw [run_takeArgs f hle hr]
      exact .inr rfl

/-- What a native keeps is kept when its result is checked: to withdraw is to go back to the moment
of its entry. -/
theorem Native.above_runChecked (f : Native) (a : Args) (result : ValueType) {b : Session}
    {m : Machine} (hm : b.Above m.session) (h : b.Above ((f.run a).run m).2.session) :
    b.Above ((f.runChecked a result).run m).2.session := by
  have hmark : b.canvas.size ≤ m.session.checkpoint.canvasSize := hm.size_canvas_le
  rw [run_runChecked]
  revert h
  rcases (f.run a).run m with ⟨_ | v, m'⟩ <;> intro h
  · exact h.rollback hmark
  · dsimp only
    split
    · exact h
    · exact h.rollback hmark

theorem Session.Above.deliver {b : Session} {m : Machine} (h : b.Above m.session)
    (result : ValueType) (v : Value) : b.Above (Native.deliver result v m).session := by
  unfold Native.deliver
  split
  · exact h
  · exact h.push v

/-- An invocation keeps what is left when the arguments are taken, if the native does. -/
theorem Native.above_invoke (f : Native) (n : Nat) {b : Session} {m : Machine}
    (htaken : b.Above ((f.takeArgs n).run m).2.session)
    (hhost : ∀ a result m', (f.takeArgs n).run m = (.ok (a, result), m') →
      b.Above m'.session → b.Above ((f.run a).run m').2.session) :
    b.Above ((f.invoke n).run m).2.session := by
  rcases htake : (f.takeArgs n).run m with ⟨e | ⟨a, result⟩, m'⟩ <;> rw [htake] at htaken
  · rw [run_invoke_error f htake]
    exact htaken
  · have hchecked := f.above_runChecked a result htaken (hhost a result m' htake htaken)
    rw [run_invoke f htake]
    revert hchecked
    rcases (f.runChecked a result).run m' with ⟨_ | v, m''⟩ <;> intro hchecked
    · exact hchecked
    · exact hchecked.deliver result v

/-- A native that keeps the rules never loses what its session held at entry: the invariant is that
the session stays above it and that no checkpoint is older. -/
theorem HostRun.above {entry : Nat} {marks : List Checkpoint} {s t : Session}
    (run : HostRun entry marks s t) {b : Session} (hentry : b.depth = entry) (hs : b.Above s)
    (hmarks : ∀ c ∈ marks, b.canvas.size ≤ c.canvasSize) : b.Above t := by
  induction run generalizing b with
  | done => exact hs
  | push v _ ih => exact ih hentry (hs.push v) hmarks
  | pop deep _ ih => exact ih hentry (hs.pop (hentry ▸ deep)) hmarks
  | display r c _ ih => exact ih hentry (hs.display r c) hmarks
  | requestRender _ ih => exact ih hentry ⟨hs.stack, hs.canvas⟩ hmarks
  | takeRedraw _ ih => exact ih hentry ⟨hs.stack, hs.canvas⟩ hmarks
  | checkpoint _ ih =>
    refine ih hentry hs ?_
    intro c hc
    rcases List.mem_cons.1 hc with rfl | hc
    · exact hs.size_canvas_le
    · exact hmarks c hc
  | rollback c own _ ih => exact ih hentry (hs.rollback (hmarks c own)) hmarks
  | @invoke marks s t g argc h deep _ _ ihHost ih =>
    have htaken : b.Above ((g.takeArgs argc).run ⟨h, s⟩).2.session := by
      rw [← hentry] at deep
      rcases g.session_takeArgs argc ⟨h, s⟩ with heq | heq <;> rw [heq] at deep ⊢
      · exact hs
      · exact hs.drop deep
    refine ih hentry (g.above_invoke argc htaken ?_) hmarks
    intro a result m htake hm
    exact ihHost a result m htake hentry hm hmarks

namespace HostRun

variable {entry : Nat} {marks : List Checkpoint} {s t : Session}

/-- What a run may do, it may do as well as a part of one that was entered before. -/
theorem mono (run : HostRun entry marks s t) {entry' : Nat} {marks' : List Checkpoint}
    (hentry : entry' ≤ entry) (hmarks : marks ⊆ marks') : HostRun entry' marks' s t := by
  induction run generalizing marks' with
  | done => exact .done
  | push v _ ih => exact .push v (ih hmarks)
  | pop deep _ ih => exact .pop (Nat.le_trans hentry deep) (ih hmarks)
  | display r c _ ih => exact .display r c (ih hmarks)
  | requestRender _ ih => exact .requestRender (ih hmarks)
  | takeRedraw _ ih => exact .takeRedraw (ih hmarks)
  | checkpoint _ ih => exact .checkpoint (ih (List.cons_subset_cons _ hmarks))
  | rollback c own _ ih => exact .rollback c (hmarks own) (ih hmarks)
  | invoke g argc h deep _ _ ihHost ih =>
    refine .invoke g argc h (Nat.le_trans hentry deep) ?_ (ih hmarks)
    intro a result m htake
    exact ihHost a result m htake hmarks

theorem pushAll (args : List Value) (next : HostRun entry marks (args.foldl Session.push s) t) :
    HostRun entry marks s t := by
  induction args generalizing s with
  | nil => exact next
  | cons v vs ih => exact .push v (ih next)

theorem truncate {n : Nat} (hn : entry ≤ n) (next : HostRun entry marks (s.truncate n) t) :
    HostRun entry marks s t := by
  induction hk : s.depth - n generalizing s with
  | zero =>
    have hs : s.truncate n = s := by simp only [Session.truncate, hk, List.drop_zero]
    exact hs ▸ next
  | succ k ih =>
    have hpop := s.depth_pop
    have hs : s.pop.truncate n = s.truncate n := by
      have hdrop : s.depth - n = s.pop.depth - n + 1 := by omega
      simp only [Session.truncate, hdrop]
      simp only [Session.pop, List.drop_tail]
    exact .pop (by omega) (ih (hs.symm ▸ next) (by omega))

/-- A native may call another one that keeps the rules: a call is made of pushes, an invocation and
pops. -/
theorem call (g : Native) (args : List Value) (h : Heap) (hentry : entry ≤ s.depth)
    (hg : g.Disciplined args ⟨h, s⟩)
    (next : HostRun entry marks ((g.call args).run ⟨h, s⟩).2.session t) :
    HostRun entry marks s t := by
  have hdeep : entry ≤ ((g.takeArgs args.length).run ⟨h, s.frame g args⟩).2.session.depth := by
    rcases g.session_takeArgs args.length ⟨h, s.frame g args⟩ with heq | heq <;> rw [heq]
    · simp only [Session.depth, Session.stack_frame, List.length_append, List.length_reverse,
        List.length_cons] at hentry ⊢
      omega
    · rw [Session.drop_frame]
      exact hentry
  refine .push (.native g.ref) (.pushAll args (.invoke g args.length h hdeep ?_ ?_))
  · intro a result m htake
    cases hr : g.resolve (args.map (Value.type h)) with
    | error e =>
      rw [← Session.topValues_frame s g args] at hr
      have hmiss := g.run_takeArgs_mismatch (m := ⟨h, s.frame g args⟩)
        (Session.length_le_depth_frame s g args) hr
      cases hmiss.symm.trans htake
    | ok r =>
      have hframe := g.run_takeArgs_frame (m := ⟨h, s⟩) hr
      cases hframe.symm.trans htake
      refine (hg r hr).mono hentry (List.nil_subset marks)
  · rw [Native.run_call_invoke] at next
    rw [Session.frame] at next
    revert next
    rcases (g.invoke args.length).run _ with ⟨e | ⟨⟩, m'⟩ <;> intro next
    · exact .truncate hentry next
    · simp only [Native.collect] at next
      split at next
      case isTrue hlt =>
        have hdeep : entry ≤ m'.session.pop.depth := by
          rw [Session.depth_pop]
          exact Nat.le_trans hentry (Nat.le_sub_one_of_lt hlt)
        exact .pop hdeep next
      case isFalse => exact next

end HostRun

/-! ## Calls -/

theorem Native.collect_ok (depth : Nat) (m : Machine) :
    ∃ answer m', collect depth m = (.ok answer, m') := by
  unfold collect
  split
  · exact ⟨_, _, rfl⟩
  · exact ⟨_, _, rfl⟩

/-- A result that is delivered onto the caller's stack is collected from it. -/
theorem Native.collect_deliver (result : ValueType) (v : Value) {m : Machine} {depth : Nat}
    (h : m.session.depth = depth) :
    collect depth (deliver result v m) =
      if result = .nothing then (.ok none, m) else (.ok (some v), m) := by
  by_cases hr : result = .nothing
  · simp only [deliver, hr, if_true, collect, h, Nat.lt_irrefl, if_false]
  · have hlt : depth < (m.session.push v).depth := by
      simp only [Session.depth, Session.push, List.length_cons] at h ⊢
      omega
    simp only [deliver, hr, if_false, collect, hlt, if_true]
    rfl

/-- What is collected has the type that was promised. -/
theorem Native.collect_typed {result : ValueType} {v : Value} {m : Machine} {depth : Nat}
    (hdepth : m.session.depth = depth) (htype : v.type m.heap = result) :
    ∃ answer, collect depth (deliver result v m) = (.ok answer, m) ∧
      if result = .nothing then answer = none
      else ∃ v, answer = some v ∧ v.type m.heap = result := by
  rw [collect_deliver result v hdepth]
  by_cases hr : result = .nothing
  · simp only [hr, if_true]
    exact ⟨none, rfl, rfl⟩
  · simp only [hr, if_false]
    exact ⟨some v, rfl, v, rfl, htype⟩

/-- **A call succeeds or leaves the session as it was**, whatever the native did before it failed
and wherever the failure was found. After a success the stack is the caller's again if the native
left it as it found it, and the answer has the type that the chosen overload promises. -/
theorem Native.call_atomic (f : Native) (args : List Value) (m : Machine)
    (hf : f.Disciplined args m) :
    match (f.call args).run m with
    | (.error _, m') => m'.session = m.session
    | (.ok answer, m') => ∃ r, f.resolve (args.map (Value.type m.heap)) = .ok r ∧
        (((f.run ⟨f.name, r.index, args⟩).run m).2.session.stack = m.session.stack →
          m'.session.stack = m.session.stack ∧
          if r.signature.result = .nothing then answer = none
          else ∃ v, answer = some v ∧ v.type m'.heap = r.signature.result) := by
  cases hr : f.resolve (args.map (Value.type m.heap)) with
  | error e => simp only [run_call_mismatch f hr]
  | ok r =>
    have habove : m.session.Above ((f.run ⟨f.name, r.index, args⟩).run m).2.session :=
      (hf r hr).above rfl (.refl _) (by simp)
    rw [run_call f hr, run_runChecked]
    cases hrun : (f.run ⟨f.name, r.index, args⟩).run m with
    | mk outcome m' =>
      rw [hrun] at habove
      cases outcome with
      | error e => exact habove.restore
      | ok v =>
        by_cases htype : v.type m'.heap = r.signature.result
        · simp only [htype, if_true]
          by_cases hstack : m'.session.stack = m.session.stack
          · have hdepth : m'.session.depth = m.session.depth := congrArg List.length hstack
            obtain ⟨answer, hcollect, hanswer⟩ := collect_typed hdepth htype
            simp only [hcollect]
            exact ⟨r, rfl, fun _ => ⟨hstack, hanswer⟩⟩
          · obtain ⟨answer, m'', hcollect⟩ :=
              collect_ok m.session.depth (deliver r.signature.result v m')
            simp only [hcollect]
            refine ⟨r, rfl, fun h => ?_⟩
            rw [hrun] at h
            exact absurd h hstack
        · simp only [htype, if_false]
          exact habove.restore

/-- A native that meddles with its session and then makes a call that no overload matches. -/
def Native.meddler : Native where
  name := "meddler"
  overloads := Natives.overloads [.of [] .number]
  run _ := do
    Action.modifySession fun s => s.push .nothing
    let mark := (← Action.session).checkpoint
    Action.modifySession fun s => s.display ⟨0⟩ .black
    Action.modifySession fun s => s.rollback mark
    Action.modifySession fun s => (s.display ⟨1⟩ .black).requestRender
    let _ ← Natives.Apol.count.call [.text "gasket"]
    return .number 0

/-- The call fails inside the nested call, with a value, an object and a request too many, and all
of them are gone afterwards. -/
theorem Native.call_atomic_meddler :
    let m : Machine := { session :=
      { stack := [.text "below"], canvas := #[⟨⟨7⟩, .black⟩], renderRequests := 3 } }
    meddler.Disciplined [] m ∧ (∃ e, ((meddler.call []).run m).1 = .error e) ∧
      ((meddler.call []).run m).2.session = m.session := by
  intro m
  have hnested : Natives.Apol.count.resolve [.text] =
      .error (.typeMismatch "Apol.count" [.text] Natives.Apol.count.overloads.signatures) := rfl
  have hmeddle : ∀ a, (meddler.run a).run m =
      (.error (.typeMismatch "Apol.count" [.text] Natives.Apol.count.overloads.signatures),
        ⟨m.heap, (((m.session.push .nothing).display ⟨0⟩ .black).rollback
          (m.session.push .nothing).checkpoint |>.display ⟨1⟩ .black).requestRender⟩) := by
    intro a
    simp only [meddler, Action.run_bind, Action.run_modifySession, Action.run_session]
    rw [run_call_mismatch _ hnested]
  have hd : meddler.Disciplined [] m := by
    intro r _
    rw [hmeddle]
    refine .push .nothing <| .checkpoint <| .display ⟨0⟩ .black <|
      .rollback _ (List.mem_singleton.2 rfl) <| .display ⟨1⟩ .black <| .requestRender <|
      .call Natives.Apol.count [.text "gasket"] m.heap (by decide) ?_ ?_
    · intro r hr
      exact absurd (hnested.symm.trans hr) (by simp)
    · rw [run_call_mismatch _ hnested]
      exact .done
  have hatomic := call_atomic meddler [] m hd
  have hresolve : meddler.resolve (([] : List Value).map (Value.type m.heap)) =
      .ok ⟨0, .of [] .number⟩ := rfl
  have hrun : ∃ e m', (meddler.call []).run m = (.error e, m') := by
    rw [run_call meddler hresolve, run_runChecked, hmeddle]
    exact ⟨_, _, rfl⟩
  obtain ⟨e, m', hrun⟩ := hrun
  rw [hrun] at hatomic ⊢
  exact ⟨hd, ⟨e, rfl⟩, hatomic⟩

end Easel
