import Easel.Proofs.Script.Calls
import Easel.Proofs.Script.References

/-!
# Machines under a renaming

Two machines agree under a renaming of references if they hold the same objects and the same
session, each under its own references. The second may hold other objects besides. Actions that use
references for nothing but to look objects up and to pass them on do the same on both machines, and
leave machines that agree under the same renaming.
-/

namespace Easel

/-! ## Heaps -/

/-- `ρ` takes the references of `h` to references of `h'` with the same objects, different ones to
different ones, and the objects still to be made in `h` to those still to be made in `h'`. -/
structure Heap.Renaming (ρ : ObjectRef → ObjectRef) (h h' : Heap) : Prop where
  injective : Function.Injective ρ
  get?_eq : ∀ r, h'.get? (ρ r) = h.get? r
  fresh : ∀ n, ρ ⟨h.size + n⟩ = ⟨h'.size + n⟩

namespace Heap

theorem get?_set_of_eq_none (h : Heap) (o : Object) {r : ObjectRef} (hr : h.get? r = none) :
    (h.set r o).get? r = none := by
  simp only [get?, set, Array.getElem?_eq_none_iff] at *
  simpa using hr

/-- The renaming that goes on as `ρ` after the second heap, and not the first of size `n`, has got
`k` more objects. -/
def makeRoom (ρ : ObjectRef → ObjectRef) (n k : Nat) (r : ObjectRef) : ObjectRef :=
  if r.index < n then ρ r else ⟨(ρ r).index + k⟩

namespace Renaming

variable {ρ : ObjectRef → ObjectRef} {h h' : Heap}

theorem refl (h : Heap) : Renaming id h h := ⟨fun _ _ e => e, fun _ => rfl, fun _ => rfl⟩

/-- An object made on both sides is the same object. -/
theorem ref_alloc (hρ : Renaming ρ h h') (o : Object) : ρ (h.alloc o).1 = (h'.alloc o).1 :=
  hρ.fresh 0

theorem alloc (hρ : Renaming ρ h h') (o : Object) : Renaming ρ (h.alloc o).2 (h'.alloc o).2 := by
  refine ⟨hρ.injective, fun r => ?_, fun n => ?_⟩
  · by_cases hr : r = (h.alloc o).1
    · rw [hr, hρ.ref_alloc, get?_alloc_self, get?_alloc_self]
    · have hr' : ρ r ≠ (h'.alloc o).1 := fun e => hr (hρ.injective (e.trans (hρ.ref_alloc o).symm))
      rw [get?_alloc_of_ne h o hr, get?_alloc_of_ne h' o hr', hρ.get?_eq]
  · rw [size_alloc, size_alloc, Nat.add_assoc, Nat.add_assoc]
    exact hρ.fresh (1 + n)

theorem allocAll (hρ : Renaming ρ h h') (os : List Object) :
    (h'.allocAll os).1 = (h.allocAll os).1.map ρ ∧
      Renaming ρ (h.allocAll os).2 (h'.allocAll os).2 := by
  induction os generalizing h h' with
  | nil => exact ⟨rfl, hρ⟩
  | cons o os ih =>
    obtain ⟨hrefs, hheap⟩ := ih (hρ.alloc o)
    refine ⟨?_, hheap⟩
    simp only [Heap.allocAll, List.map_cons, hρ.ref_alloc, hrefs]

theorem set (hρ : Renaming ρ h h') (r : ObjectRef) (o : Object) :
    Renaming ρ (h.set r o) (h'.set (ρ r) o) := by
  refine ⟨hρ.injective, fun q => ?_, fun n => ?_⟩
  · by_cases hq : r = q
    · subst hq
      cases hr : h.get? r with
      | none =>
        rw [get?_set_of_eq_none h o hr, get?_set_of_eq_none h' o ((hρ.get?_eq r).trans hr)]
      | some o' =>
        rw [get?_set_self h o (get?_eq_some_lt hr),
          get?_set_self h' o (get?_eq_some_lt ((hρ.get?_eq r).trans hr))]
    · have hq' : ρ r ≠ ρ q := fun e => hq (hρ.injective e)
      rw [get?_set_of_ne h o hq, get?_set_of_ne h' o hq', hρ.get?_eq]
  · rw [size_set, size_set]
    exact hρ.fresh n

/-- What is made already in the first heap is made already in the second one. -/
theorem index_lt (hρ : Renaming ρ h h') {r : ObjectRef} (hr : r.index < h.size) :
    (ρ r).index < h'.size := by
  obtain ⟨o, ho⟩ := exists_get?_of_lt hr
  exact get?_eq_some_lt ((hρ.get?_eq r).trans ho)

theorem index_fresh (hρ : Renaming ρ h h') {r : ObjectRef} (hr : ¬ r.index < h.size) :
    (ρ r).index = h'.size + (r.index - h.size) := by
  have hadd : h.size + (r.index - h.size) = r.index := by omega
  have := hρ.fresh (r.index - h.size)
  rw [hadd] at this
  rw [this]

/-- The second heap may get objects that the first one has not. -/
theorem makeRoom (hρ : Renaming ρ h h') (os : List Object) :
    Renaming (makeRoom ρ h.size os.length) h (h'.allocAll os).2 := by
  refine ⟨fun r q hrq => ?_, fun r => ?_, fun n => ?_⟩
  · simp only [Heap.makeRoom] at hrq
    by_cases hr : r.index < h.size <;> by_cases hq : q.index < h.size <;>
      simp only [hr, hq, if_true, if_false] at hrq
    · exact hρ.injective hrq
    · have := hρ.index_lt hr
      have := hρ.index_fresh hq
      have := congrArg ObjectRef.index hrq
      simp only at this
      omega
    · have := hρ.index_lt hq
      have := hρ.index_fresh hr
      have := congrArg ObjectRef.index hrq
      simp only at this
      omega
    · have hindex := congrArg ObjectRef.index hrq
      simp only [Nat.add_right_cancel_iff] at hindex
      exact hρ.injective (by cases h : ρ r; cases h' : ρ q; simp_all)
  · by_cases hr : r.index < h.size
    · simp only [Heap.makeRoom, hr, if_true]
      rw [get?_allocAll_of_lt _ _ (hρ.index_lt hr), hρ.get?_eq]
    · simp only [Heap.makeRoom, hr, if_false]
      rw [get?_eq_none_of_le (Nat.le_of_not_lt hr), get?_eq_none_of_le]
      rw [size_allocAll, hρ.index_fresh hr]
      simp only
      omega
  · have hn : ¬ h.size + n < h.size := by omega
    simp only [Heap.makeRoom, hn, if_false, hρ.fresh, size_allocAll]
    congr 1
    omega

theorem type_rename (hρ : Renaming ρ h h') (v : Value) : (v.rename ρ).type h' = v.type h := by
  cases v with
  | object r => simp only [Value.rename, Value.type, hρ.get?_eq]
  | _ => rfl

theorem types_rename (hρ : Renaming ρ h h') (vs : List Value) :
    (vs.map (Value.rename ρ)).map (Value.type h') = vs.map (Value.type h) := by
  rw [List.map_map]
  exact List.map_congr_left fun v _ => hρ.type_rename v

end Renaming

end Heap

/-! ## Sessions -/

/-- The entry of a canvas with its object renamed. -/
def Shown.rename (ρ : ObjectRef → ObjectRef) (s : Shown) : Shown := ⟨ρ s.object, s.colour⟩

namespace Session

/-- The session with every reference renamed. -/
def rename (ρ : ObjectRef → ObjectRef) (s : Session) : Session :=
  { s with stack := s.stack.map (Value.rename ρ), canvas := s.canvas.map (Shown.rename ρ) }

variable (ρ : ObjectRef → ObjectRef) (s : Session)

@[simp] theorem depth_rename : (s.rename ρ).depth = s.depth := List.length_map _

@[simp] theorem checkpoint_rename : (s.rename ρ).checkpoint = s.checkpoint := by
  simp [checkpoint, rename]

theorem push_rename (v : Value) : (s.rename ρ).push (v.rename ρ) = (s.push v).rename ρ := rfl

theorem pop_rename : (s.rename ρ).pop = s.pop.rename ρ := by
  simp only [pop, rename, List.map_tail]

theorem truncate_rename (n : Nat) : (s.rename ρ).truncate n = (s.truncate n).rename ρ := by
  simp only [truncate, depth_rename]
  simp only [rename, List.map_drop]

theorem rollback_rename (c : Checkpoint) : (s.rename ρ).rollback c = (s.rollback c).rename ρ := by
  simp [rollback, rename]

theorem display_rename (r : ObjectRef) (c : Colour) :
    (s.rename ρ).display (ρ r) c = (s.display r c).rename ρ := by
  simp only [display, rename, Array.map_push]
  rfl

end Session

/-! ## Machines and actions -/

/-- The machines hold the same objects and the same session, `m'` under the references that `ρ`
gives to those of `m`. -/
structure Machine.Renamed (ρ : ObjectRef → ObjectRef) (m m' : Machine) : Prop where
  heap : m.heap.Renaming ρ m'.heap
  session : m'.session = m.session.rename ρ

namespace Machine.Renamed

variable {ρ : ObjectRef → ObjectRef} {m m' : Machine}

/-- Sessions stay alike under changes that respect the renaming. -/
theorem modifySession (h : m.Renamed ρ m') (f g : Session → Session)
    (hfg : ∀ s, g (s.rename ρ) = (f s).rename ρ) :
    Renamed ρ { m with session := f m.session } { m' with session := g m'.session } :=
  ⟨h.heap, by rw [h.session, hfg]⟩

theorem rollback (h : m.Renamed ρ m') (c : Checkpoint) :
    Renamed ρ { m with session := m.session.rollback c }
      { m' with session := m'.session.rollback c } :=
  h.modifySession (·.rollback c) (·.rollback c) fun s => s.rollback_rename ρ c

theorem truncate (h : m.Renamed ρ m') (n : Nat) :
    Renamed ρ { m with session := m.session.truncate n }
      { m' with session := m'.session.truncate n } :=
  h.modifySession (·.truncate n) (·.truncate n) fun s => s.truncate_rename ρ n

end Machine.Renamed

namespace Action

variable {α β : Type} {ρ : ObjectRef → ObjectRef}

/-- On machines that agree under `ρ`, `a'` does what `a` does: it gives the result that `f` makes
of the result of `a`, or fails with the same error, and leaves machines that agree under `ρ`. -/
def Renames (ρ : ObjectRef → ObjectRef) (f : α → α) (a a' : Action α) : Prop :=
  ∀ m m', Machine.Renamed ρ m m' →
    (a'.run m').1 = (a.run m).1.map f ∧ Machine.Renamed ρ (a.run m).2 (a'.run m').2

namespace Renames

theorem pure {f : α → α} {v v' : α} (hv : v' = f v) :
    Renames ρ f (Pure.pure v) (Pure.pure v') := by
  intro m m' h
  subst hv
  exact ⟨rfl, h⟩

theorem throw (f : α → α) (e : Error) : Renames ρ f (throw e) (throw e) :=
  fun _ _ h => ⟨rfl, h⟩

/-- What follows has to do the same on renamed results. -/
theorem bind {f : α → α} {g : β → β} {a a' : Action α} {k k' : α → Action β}
    (ha : Renames ρ f a a') (hk : ∀ v, Renames ρ g (k v) (k' (f v))) :
    Renames ρ g (a >>= k) (a' >>= k') := by
  intro m m' h
  obtain ⟨hresult, hm⟩ := ha m m' h
  rw [run_bind, run_bind]
  rcases hrun : a.run m with ⟨_ | v, m₁⟩ <;> rcases hrun' : a'.run m' with ⟨_ | v', m₁'⟩ <;>
    rw [hrun, hrun'] at hresult hm <;> cases hresult
  · exact ⟨rfl, hm⟩
  · exact hk v m₁ m₁' hm

/-- The same for results that hold no references. -/
theorem bind_same {g : β → β} {a a' : Action α} {k k' : α → Action β} (ha : Renames ρ id a a')
    (hk : ∀ v, Renames ρ g (k v) (k' v)) : Renames ρ g (a >>= k) (a' >>= k') :=
  ha.bind hk

/-- Results without references may be used in any way. -/
theorem map_same {a a' : Action α} (k : α → β) (ha : Renames ρ id a a') :
    Renames ρ id (k <$> a) (k <$> a') := by
  intro m m' h
  obtain ⟨hresult, hm⟩ := ha m m' h
  rw [run_map, run_map]
  rcases hrun : a.run m with ⟨_ | v, m₁⟩ <;> rcases hrun' : a'.run m' with ⟨_ | v', m₁'⟩ <;>
    rw [hrun, hrun'] at hresult hm <;> cases hresult
  · exact ⟨rfl, hm⟩
  · exact ⟨rfl, hm⟩

theorem ite {f : α → α} {a a' b b' : Action α} (p : Prop) [Decidable p] (ha : Renames ρ f a a')
    (hb : Renames ρ f b b') : Renames ρ f (if p then a else b) (if p then a' else b') := by
  split
  · exact ha
  · exact hb

theorem modifySession {f g : Session → Session} (hfg : ∀ s, g (s.rename ρ) = (f s).rename ρ) :
    Renames ρ id (Action.modifySession f) (Action.modifySession g) :=
  fun _ _ h => ⟨rfl, h.modifySession f g hfg⟩

theorem new (o : Object) : Renames ρ (Value.rename ρ) (Action.new o) (Action.new o) := by
  intro m m' h
  refine ⟨?_, h.heap.alloc o, h.session⟩
  rw [run_new, run_new, ← h.heap.ref_alloc o]
  rfl

theorem object (r : ObjectRef) : Renames ρ id (Action.object r) (Action.object (ρ r)) := by
  intro m m' h
  have hget := h.heap.get?_eq r
  simp only [Action.object, run_bind, run_heap, hget]
  cases m.heap.get? r with
  | none => exact ⟨rfl, h⟩
  | some o => exact ⟨rfl, h⟩

/-- What is read off the heap and the arguments has only to be read alike. -/
theorem read {f : α → α} {get get' : Heap → Except Error α}
    (hget : ∀ h h', Heap.Renaming ρ h h' → get' h' = (get h).map f) :
    Renames ρ f (do get (← Action.heap)) (do get' (← Action.heap)) := by
  intro m m' h
  simp only [run_bind, run_heap, run_lift]
  exact ⟨hget _ _ h.heap, h⟩

end Renames

end Action

/-! ## Calls -/

/-- The arguments with every reference renamed. -/
def Args.rename (ρ : ObjectRef → ObjectRef) (a : Args) : Args :=
  { a with values := a.values.map (Value.rename ρ) }

namespace Native

variable {ρ : ObjectRef → ObjectRef} {f : Native}

/-- `f` uses references for nothing but to look objects up and to pass them on. -/
def Oblivious (f : Native) : Prop :=
  ∀ ρ a, Action.Renames ρ (Value.rename ρ) (f.run a) (f.run (a.rename ρ))

theorem Oblivious.runChecked (hf : f.Oblivious) (a : Args) (result : ValueType) :
    Action.Renames ρ (Value.rename ρ) (f.runChecked a result)
      (f.runChecked (a.rename ρ) result) := by
  intro m m' h
  obtain ⟨hresult, hm⟩ := hf ρ a m m' h
  have hmark : m'.session.checkpoint = m.session.checkpoint := by
    rw [h.session, Session.checkpoint_rename]
  rw [run_runChecked, run_runChecked, hmark]
  rcases hrun : (f.run a).run m with ⟨_ | v, m₁⟩ <;>
    rcases hrun' : (f.run (a.rename ρ)).run m' with ⟨_ | v', m₁'⟩ <;>
    rw [hrun, hrun'] at hresult hm <;> cases hresult
  · exact ⟨rfl, hm.rollback _⟩
  · simp only [hm.heap.type_rename]
    split
    · exact ⟨rfl, hm⟩
    · exact ⟨rfl, hm.rollback _⟩

theorem renamed_deliver (result : ValueType) (v : Value) {m m' : Machine} (h : m.Renamed ρ m') :
    (deliver result v m).Renamed ρ (deliver result (v.rename ρ) m') := by
  unfold deliver
  split
  · exact h
  · exact h.modifySession (·.push v) (·.push (v.rename ρ)) fun s => s.push_rename ρ v

theorem renamed_collect (depth : Nat) {m m' : Machine} (h : m.Renamed ρ m') :
    (collect depth m').1 = (collect depth m).1.map (Option.map (Value.rename ρ)) ∧
      (collect depth m).2.Renamed ρ (collect depth m').2 := by
  have hdepth : m'.session.depth = m.session.depth := by rw [h.session, Session.depth_rename]
  unfold collect
  rw [hdepth]
  split
  · refine ⟨?_, h.modifySession _ _ fun s => s.pop_rename ρ⟩
    simp only [h.session, Session.rename, List.head?_map]
    rfl
  · exact ⟨rfl, h⟩

/-- **A call of an oblivious native does the same on renamed arguments.** -/
theorem Oblivious.call (hf : f.Oblivious) (args : List Value) :
    Action.Renames ρ (Option.map (Value.rename ρ)) (f.call args)
      (f.call (args.map (Value.rename ρ))) := by
  intro m m' h
  have htypes := h.heap.types_rename args
  cases hr : f.resolve (args.map (Value.type m.heap)) with
  | error e =>
    rw [run_call_mismatch f hr, run_call_mismatch f (htypes.symm ▸ hr)]
    exact ⟨rfl, h⟩
  | ok r =>
    obtain ⟨hresult, hm⟩ := hf.runChecked ⟨f.name, r.index, args⟩ r.signature.result m m' h
    have hdepth : m'.session.depth = m.session.depth := by rw [h.session, Session.depth_rename]
    rw [run_call f hr, run_call f (htypes.symm ▸ hr), hdepth]
    rcases hrun : (f.runChecked ⟨f.name, r.index, args⟩ r.signature.result).run m
      with ⟨_ | v, m₁⟩ <;>
      rcases hrun' : (f.runChecked (Args.rename ρ ⟨f.name, r.index, args⟩)
        r.signature.result).run m' with ⟨_ | v', m₁'⟩ <;>
      rw [hrun, hrun'] at hresult hm <;> cases hresult <;>
      simp only [Args.rename] at hrun' <;> rw [hrun']
    · exact ⟨rfl, hm.truncate _⟩
    · exact renamed_collect _ (renamed_deliver _ v hm)

end Native

end Easel
