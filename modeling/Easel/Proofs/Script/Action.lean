import Easel.Script.Native

/-!
# Running actions

What each action does to a machine, as an equation between the machine before and the pair of the
outcome and the machine after. An action that fails keeps the changes it made before, so the
machine after a failure is part of every equation. How actions are put together does not depend on
the state that they act on.
-/

namespace Easel.Action

variable {α β : Type}

/-! ## On any state -/

section

variable {σ : Type} (m : σ)

theorem run_pure (v : α) : (pure v : ExceptT Error (StateM σ) α).run m = (.ok v, m) := rfl

theorem run_throw (e : Error) : (throw e : ExceptT Error (StateM σ) α).run m = (.error e, m) := rfl

theorem run_lift (x : Except Error α) : (liftM x : ExceptT Error (StateM σ) α).run m = (x, m) := by
  cases x <;> rfl

/-- The second action starts where the first one ended, unless the first one failed. -/
theorem run_bind (a : ExceptT Error (StateM σ) α) (k : α → ExceptT Error (StateM σ) β) :
    (a >>= k).run m = match a.run m with
      | (.ok v, m') => (k v).run m'
      | (.error e, m') => (.error e, m') := by
  simp only [bind, ExceptT.bind, ExceptT.mk, ExceptT.run, StateT.bind, ExceptT.bindCont]
  rcases a m with ⟨_ | _, _⟩ <;> rfl

/-- Either the first action fails, or the second one takes over. -/
theorem run_bind_cases {m : σ} {a : ExceptT Error (StateM σ) α}
    {k : α → ExceptT Error (StateM σ) β} {result : Except Error β} {m' : σ}
    (h : (a >>= k).run m = (result, m')) :
    (∃ e, a.run m = (.error e, m') ∧ result = .error e) ∨
      ∃ v m₁, a.run m = (.ok v, m₁) ∧ (k v).run m₁ = (result, m') := by
  rw [run_bind] at h
  split at h
  · rename_i v m₁ ha
    exact .inr ⟨v, m₁, ha, h⟩
  · rename_i e m₁ ha
    obtain ⟨rfl, rfl⟩ := Prod.mk.inj h
    exact .inl ⟨e, ha, rfl⟩

/-- What is lifted fails without any change, or the second action starts in the same state. -/
theorem run_lift_bind_cases {m : σ} {x : Except Error α} {k : α → ExceptT Error (StateM σ) β}
    {result : Except Error β} {m' : σ}
    (h : ((liftM x : ExceptT _ _ _) >>= k).run m = (result, m')) :
    (∃ e, m' = m ∧ result = .error e) ∨ ∃ v, x = .ok v ∧ (k v).run m = (result, m') := by
  rcases run_bind_cases h with ⟨e, hx, rfl⟩ | ⟨v, m₁, hx, hk⟩
  · rw [run_lift] at hx
    exact .inl ⟨e, (Prod.mk.inj hx).2.symm, rfl⟩
  · rw [run_lift] at hx
    obtain ⟨hv, rfl⟩ := Prod.mk.inj hx
    exact .inr ⟨v, hv, hk⟩

theorem run_map (f : α → β) (a : ExceptT Error (StateM σ) α) :
    (f <$> a).run m = match a.run m with
      | (.ok v, m') => (.ok (f v), m')
      | (.error e, m') => (.error e, m') := by
  simp only [Functor.map, ExceptT.map, ExceptT.mk, ExceptT.run, bind, StateT.bind]
  rcases a m with ⟨_ | _, _⟩ <;> rfl

/-- The handler starts where the failed action stopped. -/
theorem run_tryCatch (a : ExceptT Error (StateM σ) α) (k : Error → ExceptT Error (StateM σ) α) :
    (tryCatch a k).run m = match a.run m with
      | (.ok v, m') => (.ok v, m')
      | (.error e, m') => (k e).run m' := by
  simp only [tryCatch, tryCatchThe, MonadExceptOf.tryCatch, ExceptT.tryCatch, ExceptT.mk,
    ExceptT.run, bind, StateT.bind]
  rcases a m with ⟨_ | _, _⟩ <;> rfl

end

/-! ## On a machine -/

variable (m : Machine)

theorem run_fault (f : BridgeFault) :
    (fault f : Action α).run m = (.error (.internal f), m) := rfl

theorem run_session : session.run m = (.ok m.session, m) := rfl

theorem run_heap : heap.run m = (.ok m.heap, m) := rfl

theorem run_modifySession (f : Session → Session) :
    (modifySession f).run m = (.ok (), { m with session := f m.session }) := rfl

theorem run_new (o : Object) :
    (new o).run m = (.ok (.object (m.heap.alloc o).1), { m with heap := (m.heap.alloc o).2 }) :=
  rfl

theorem run_object {m : Machine} {r : ObjectRef} {o : Object} (h : m.heap.get? r = some o) :
    (object r).run m = (.ok o, m) := by
  simp only [object, run_bind, run_heap, h, run_pure]

theorem run_pop :
    pop.run m = (.ok m.session.stack.head?, { m with session := m.session.pop }) := by
  simp only [pop, run_bind, run_session, run_modifySession, run_pure, Session.peek?,
    List.head?_eq_getElem?]

theorem run_argTypes {m : Machine} {n : Nat} (h : n ≤ m.session.depth) :
    (argTypes n).run m = (.ok ((m.session.topValues n).map (Value.type m.heap)), m) := by
  have hn : ¬ m.session.depth < n := by omega
  simp only [argTypes, run_bind, run_session, hn, if_false, run_heap, run_pure]

theorem run_argTypes_underflow {m : Machine} {n : Nat} (h : m.session.depth < n) :
    (argTypes n).run m = (.error (.internal (.underflow n m.session.depth)), m) := by
  simp only [argTypes, run_bind, run_session, h, if_true, run_fault]

theorem run_popArgs {m : Machine} {n : Nat} (h : n ≤ m.session.depth) :
    (popArgs n).run m = (.ok (m.session.topValues n),
      { m with session := m.session.truncate (m.session.depth - n) }) := by
  have hn : ¬ m.session.depth < n := by omega
  simp only [popArgs, run_bind, run_session, hn, if_false, run_modifySession, run_pure]

end Easel.Action
