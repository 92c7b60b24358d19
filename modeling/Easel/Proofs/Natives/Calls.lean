import Easel.Proofs.Natives.Deeds
import Easel.Proofs.Script.Atomicity

/-!
# Calls of the library's natives

A call of a registered native either matches no overload, or comes to its deed: the bridge adds
nothing, takes nothing away and finds no fault. The heap only evolves, and the answer has the type
that the overload promises.
-/

namespace Easel

namespace Deed

variable {d : Deed} {result : ValueType} {args : List Value} {m : Machine}

theorem perform_ok_or (d : Deed) (m : Machine) :
    (∃ v m', d.perform m = (.ok v, m')) ∨
      ∃ owner field known, d = .refuse owner field known := by
  cases d with
  | refuse owner field known => exact .inr ⟨owner, field, known, rfl⟩
  | _ => exact .inl ⟨_, _, rfl⟩

theorem perform_evolves (hd : d.Fits result args m.heap) :
    m.heap.Evolves (d.perform m).2.heap := by
  cases d with
  | make o => exact .alloc m.heap o
  | makeAll os => exact .allocAll m.heap os
  | grow r o =>
    obtain ⟨-, -, o₀, ho, hk⟩ := hd
    exact .set ho hk
  | answer | refuse | display => exact .refl m.heap

theorem type_perform (hd : d.Fits result args m.heap) {v : Value} {m' : Machine}
    (h : d.perform m = (.ok v, m')) : v.type m'.heap = result := by
  cases d with
  | make o =>
    cases h
    simp only [Value.type, Heap.get?_alloc_self]
    exact hd.symm
  | makeAll os => cases h; exact hd.symm
  | answer x => cases h; exact hd.symm
  | refuse owner field known => cases h
  | display r c => cases h; exact hd.1.symm
  | grow r o => cases h; exact hd.1.symm

/-- What a call comes to whose native does the deed. -/
def outcome (d : Deed) (result : ValueType) (m : Machine) :
    Except Error (Option Value) × Machine :=
  match d.perform m with
  | (.ok v, m') => (.ok (if result = .nothing then none else some v), m')
  | (.error e, m') => (.error e, m')

/-- The check of the result finds no fault with a deed that fits. -/
theorem run_runChecked {f : Native} {a : Args} (hd : d.Fits result args m.heap)
    (h : (f.run a).run m = d.perform m) : (f.runChecked a result).run m = d.perform m := by
  rw [Native.run_runChecked, h]
  rcases d.perform_ok_or m with ⟨v, m', hp⟩ | ⟨owner, field, known, rfl⟩
  · simp only [hp, type_perform hd hp, if_true]
  · simp only [perform, Session.rollback_checkpoint]

/-- What a native leaves on the stack is what it found there. -/
theorem stack_perform (d : Deed) (m : Machine) :
    (d.perform m).2.session.stack = m.session.stack := by
  cases d <;> rfl

/-- A call that matches an overload comes to the deed of the native. -/
theorem run_call {f : Native} {r : Resolved} (hd : d.Fits r.signature.result args m.heap)
    (hr : f.resolve (args.map (Value.type m.heap)) = .ok r)
    (h : (f.run ⟨f.name, r.index, args⟩).run m = d.perform m) :
    (f.call args).run m = d.outcome r.signature.result m := by
  have hdepth : (d.perform m).2.session.depth = m.session.depth :=
    congrArg List.length (d.stack_perform m)
  rw [Native.run_call f hr, run_runChecked hd h]
  rcases d.perform_ok_or m with ⟨v, m', hp⟩ | ⟨owner, field, known, rfl⟩
  · rw [hp] at hdepth
    simp only [outcome, hp, Native.collect_deliver _ _ hdepth]
    split <;> rfl
  · simp only [outcome, perform, Session.truncate_depth]

theorem outcome_ok_or (d : Deed) (result : ValueType) (m : Machine) :
    (∃ answer m', d.outcome result m = (.ok answer, m')) ∨
      ∃ owner field known, d = .refuse owner field known ∧
        d.outcome result m = (.error (.unknownField owner field known), m) := by
  rcases d.perform_ok_or m with ⟨v, m', hp⟩ | ⟨owner, field, known, rfl⟩
  · exact .inl ⟨_, m', by simp only [outcome, hp]; rfl⟩
  · exact .inr ⟨owner, field, known, rfl, rfl⟩

/-- The answer has the promised type, once a missing one counts as `nothing`. -/
theorem outcome_ok (hd : d.Fits result args m.heap) {answer : Option Value} {m' : Machine}
    (h : d.outcome result m = (.ok answer, m')) :
    m.heap.Evolves m'.heap ∧ (answer.getD .nothing).type m'.heap = result ∧
      (answer.getD .nothing).Live m'.heap := by
  have hevolves := perform_evolves hd
  rcases d.perform_ok_or m with ⟨v, m₁, hp⟩ | ⟨owner, field, known, rfl⟩
  · have htype := type_perform hd hp
    rw [hp] at hevolves
    simp only [outcome, hp] at h
    cases h
    by_cases hr : result = .nothing
    · simp only [hr, if_true, Option.getD_none]
      exact ⟨hevolves, rfl, fun _ h => by cases h⟩
    · simp only [hr, if_false, Option.getD_some]
      exact ⟨hevolves, htype, Value.live_of_type_ne (by rw [htype]; exact hr)⟩
  · cases h

end Deed

namespace Natives

variable {f : Native} {args : List Value} {m : Machine}

/-- No native takes a value of type `nothing`. -/
theorem nothing_not_param : ∀ f ∈ registry.natives, ∀ s ∈ f.overloads.signatures,
    ValueType.nothing ∉ s.types := by
  decide

/-- No overload matches when an argument is of type `nothing`. -/
theorem resolve_nothing (hf : f ∈ registry.natives) {types : List ValueType}
    (ht : .nothing ∈ types) :
    f.resolve types = .error (.typeMismatch f.name types f.overloads.signatures) := by
  cases hr : f.resolve types with
  | error e => rw [Overloads.resolve_error hr]
  | ok chosen =>
    obtain ⟨hget, htypes⟩ := Overloads.resolve_ok hr
    exact absurd (htypes ▸ ht)
      (nothing_not_param f hf chosen.signature (List.mem_of_getElem? hget))

/-- **A call of a registered native comes to a deed**, if an overload matches the arguments. Which
one is decided by the objects and the arguments, whatever the session. -/
theorem call_deed_of_heap (hf : f ∈ registry.natives) (h : Heap) {r : Resolved}
    (hr : f.resolve (args.map (Value.type h)) = .ok r) :
    ∃ d : Deed, d.Fits r.signature.result args h ∧ f.name ∈ d.doers ∧ d.Genuine f.name h ∧
      ∀ s, (f.call args).run ⟨h, s⟩ = d.outcome r.signature.result ⟨h, s⟩ := by
  obtain ⟨d, hfits, hname, hgenuine, hrun⟩ := deeds hf h args r hr
  exact ⟨d, hfits, hname, hgenuine, fun s => Deed.run_call (m := ⟨h, s⟩) hfits hr (hrun s)⟩

theorem call_deed (hf : f ∈ registry.natives) {r : Resolved}
    (hr : f.resolve (args.map (Value.type m.heap)) = .ok r) :
    ∃ d : Deed, d.Fits r.signature.result args m.heap ∧ f.name ∈ d.doers ∧
      d.Genuine f.name m.heap ∧ (f.call args).run m = d.outcome r.signature.result m := by
  obtain ⟨d, hfits, hname, hgenuine, hcall⟩ := call_deed_of_heap hf m.heap hr
  exact ⟨d, hfits, hname, hgenuine, hcall m.session⟩

/-- A call of a registered native ends well, and no object has then changed its class; or no
overload matches; or a field is unknown, and only `get` asks for fields. -/
theorem call_cases (hf : f ∈ registry.natives) (args : List Value) (m : Machine) :
    (∃ answer m', (f.call args).run m = (.ok answer, m') ∧ m.heap.Evolves m'.heap) ∨
    (∃ attempted, (f.call args).run m =
      (.error (.typeMismatch f.name attempted f.overloads.signatures), m)) ∨
    (∃ owner field known, f.name ∈ ["Point.get", "Circle.get"] ∧
      (f.call args).run m = (.error (.unknownField owner field known), m)) := by
  cases hr : f.resolve (args.map (Value.type m.heap)) with
  | error e =>
    obtain rfl := Overloads.resolve_error hr
    exact .inr (.inl ⟨_, Native.run_call_mismatch f hr⟩)
  | ok r =>
    obtain ⟨d, hfits, hname, -, hcall⟩ := call_deed hf hr
    rcases d.outcome_ok_or r.signature.result m with ⟨answer, m', h⟩ | ⟨owner, field, known, rfl, h⟩
    · exact .inl ⟨answer, m', hcall.trans h, (Deed.outcome_ok hfits h).1⟩
    · exact .inr (.inr ⟨owner, field, known, hname, hcall.trans h⟩)

end Natives

end Easel
