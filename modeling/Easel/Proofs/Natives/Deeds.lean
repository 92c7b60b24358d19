import Easel.Natives.Registry
import Easel.Proofs.Script.Calls
import Easel.Proofs.Script.Heaps

/-!
# What natives do

Every native of the library comes down to one deed: it makes objects, answers with a number, refuses
to answer, displays its receiver or lets its receiver grow. Which deed it is follows from the
objects and the arguments alone; the session is never asked. What is made is `Fresh`, and what grows
becomes what its native `Grows` it into. `Natives.deeds` says so for the whole registry, so that
what holds of all deeds holds of all natives.
-/

namespace Easel

/-! ## What is made and what grows -/

/-- An object as a native makes it. -/
inductive Object.Fresh : Object → Prop where
  | gasket (origin : Point Float) : Fresh (.apollonian (.empty origin))
  | fractal (seed : Triangle Float) : Fresh (.sierpinski (.ofSeed seed))
  | tiling (center : Point Float) (size : Float) (rings : Nat) :
      Fresh (.hexagons (.ofRings center size rings))
  | point (p : LabelledPoint Float) : Fresh (.point p)
  | circle (x y radius : Float) (label : Option String) :
      Fresh (.circle ⟨.ofRadius x y radius, label⟩)

/-- `Grows name o o'`: the native `name` lets `o` grow into `o'`. -/
inductive Object.Grows : String → Object → Object → Prop where
  | enclosed (g : Gasket Float) (radius : Float) :
      Grows "Apol.enclosing" (.apollonian g) (.apollonian (g.enclose radius))
  | filled (g : Gasket Float) : Grows "Apol.next" (.apollonian g) (.apollonian g.next)
  | divided (s : Sierpinski Float) : Grows "Sierp.next" (.sierpinski s) (.sierpinski s.next)

/-! ## Deeds -/

/-- What a native does to the machine it runs on. -/
inductive Deed where
  | make (o : Object)
  | makeAll (os : List Object)
  | answer (x : Float)
  /-- There is no field of the name that was asked for. -/
  | refuse (owner : ObjectClass) (field : String) (known : List String)
  | display (r : ObjectRef) (c : Colour)
  /-- An object is replaced by a grown one. -/
  | grow (r : ObjectRef) (o : Object)

namespace Deed

def perform : Deed → Machine → Except Error Value × Machine
  | make o, m => (.ok (.object (m.heap.alloc o).1), { m with heap := (m.heap.alloc o).2 })
  | makeAll os, m => (.ok (.list ((m.heap.allocAll os).1.map .object)),
      { m with heap := (m.heap.allocAll os).2 })
  | answer x, m => (.ok (.number x), m)
  | refuse owner field known, m => (.error (.unknownField owner field known), m)
  | display r c, m => (.ok .nothing, { m with session := (m.session.display r c).requestRender })
  | grow r o, m => (.ok .nothing, ⟨m.heap.set r o, m.session.requestRender⟩)

/-- The natives that do such a deed. -/
def doers : Deed → List String
  | make _ => ["Apol", "Sierp", "Hexa", "Point", "Circle"]
  | makeAll _ => ["Circle.intersect"]
  | answer _ => ["Apol.count", "Sierp.count", "Point.get", "Circle.get"]
  | refuse _ _ _ => ["Point.get", "Circle.get"]
  | display _ _ => ["Apol.draw", "Sierp.draw", "Hexa.draw", "Point.draw", "Circle.draw"]
  | grow _ _ => ["Apol.enclosing", "Apol.next", "Sierp.next"]

/-- The colour that the arguments of `draw` ask for. -/
def stroke (args : List Value) : Colour :=
  match (args[1]? : Option Value) with
  | some (.colour c) => c
  | _ => Natives.defaultStroke

/-- The deed agrees with the result type `result` that is promised for it, and what it displays or
grows is the first of `args`, an object of the heap that stays in its class. -/
def Fits (result : ValueType) (args : List Value) (h : Heap) : Deed → Prop
  | make o => result = .object o.kind
  | makeAll _ => result = .list
  | answer _ => result = .number
  | refuse _ _ _ => result = .number
  | display r c => result = .nothing ∧ args.head? = some (.object r) ∧ c = stroke args ∧
      ∃ o, h.get? r = some o
  | grow r o => result = .nothing ∧ args.head? = some (.object r) ∧
      ∃ o₀, h.get? r = some o₀ ∧ o₀.kind = o.kind

end Deed

/-- The deed makes objects as natives make them, and lets one grow as the native `name` does. -/
def Deed.Genuine (name : String) (h : Heap) : Deed → Prop
  | make o => o.Fresh
  | makeAll os => ∀ o ∈ os, o.Fresh
  | grow r o => ∃ o₀, h.get? r = some o₀ ∧ o₀.Grows name o
  | answer _ | refuse _ _ _ | display _ _ => True

/-- Whenever an overload of `f` matches the arguments, `f` does a deed that fits. -/
def Native.DoesDeeds (f : Native) : Prop :=
  ∀ (h : Heap) (args : List Value) (r : Resolved),
    f.resolve (args.map (Value.type h)) = .ok r →
    ∃ d : Deed, d.Fits r.signature.result args h ∧ f.name ∈ d.doers ∧ d.Genuine f.name h ∧
      ∀ s, (f.run ⟨f.name, r.index, args⟩).run ⟨h, s⟩ = d.perform ⟨h, s⟩

/-- The same for the overload at index `i`, whose signature is `sig`. -/
def Native.DoesDeedsAt (f : Native) (i : Nat) (sig : Signature) : Prop :=
  ∀ (h : Heap) (a : Args), a.overload = i → a.values.map (Value.type h) = sig.types →
    ∃ d : Deed, d.Fits sig.result a.values h ∧ f.name ∈ d.doers ∧ d.Genuine f.name h ∧
      ∀ s, (f.run a).run ⟨h, s⟩ = d.perform ⟨h, s⟩

theorem Native.doesDeeds {f : Native}
    (H : ∀ i sig, f.overloads.signatures[i]? = some sig → f.DoesDeedsAt i sig) : f.DoesDeeds := by
  intro h args r hr
  obtain ⟨hsig, htypes⟩ := Overloads.resolve_ok hr
  exact H r.index r.signature hsig h ⟨f.name, r.index, args⟩ rfl htypes.symm

namespace Natives

/-! ## Reading arguments

An argument of the type that a native expects at a position is read without a fault. -/

section Arguments

variable {a : Args} {h : Heap} {types : List ValueType}

theorem value_at (ht : a.values.map (Value.type h) = types) {i : Nat} {t : ValueType}
    (hi : types[i]? = some t) : ∃ v, a.values[i]? = some v ∧ v.type h = t := by
  rw [← ht, List.getElem?_map] at hi
  exact Option.map_eq_some_iff.1 hi

theorem run_read {α : Type} {read : Heap → Except Error α} {x : α} (hread : read h = .ok x)
    (s : Session) :
    (do read (← Action.heap) : Action α).run ⟨h, s⟩ = (.ok x, ⟨h, s⟩) := by
  simp only [Action.run_bind, Action.run_heap, hread, Action.run_lift]

theorem number_ok (ht : a.values.map (Value.type h) = types) (i : Nat)
    (hi : types[i]? = some .number) :
    ∃ x, ∀ s, (number a i).run ⟨h, s⟩ = (.ok x, ⟨h, s⟩) := by
  obtain ⟨v, hv, htype⟩ := value_at ht hi
  obtain ⟨x, rfl⟩ := Value.type_eq_number.1 htype
  refine ⟨x, run_read ?_⟩
  simp only [Args.number, Args.get, hv]
  rfl

theorem text_ok (ht : a.values.map (Value.type h) = types) (i : Nat)
    (hi : types[i]? = some .text) :
    ∃ x, ∀ s, (text a i).run ⟨h, s⟩ = (.ok x, ⟨h, s⟩) := by
  obtain ⟨v, hv, htype⟩ := value_at ht hi
  obtain ⟨x, rfl⟩ := Value.type_eq_text.1 htype
  refine ⟨x, run_read ?_⟩
  simp only [Args.text, Args.get, hv]
  rfl

theorem colour_ok (ht : a.values.map (Value.type h) = types) (i : Nat)
    (hi : types[i]? = some .colour) :
    ∃ c, a.values[i]? = some (.colour c) ∧ ∀ s, (colour a i).run ⟨h, s⟩ = (.ok c, ⟨h, s⟩) := by
  obtain ⟨v, hv, htype⟩ := value_at ht hi
  obtain ⟨c, rfl⟩ := Value.type_eq_colour.1 htype
  refine ⟨c, hv, run_read ?_⟩
  simp only [Args.colour, Args.get, hv]
  rfl

/-- An argument of a class is a reference to an object of that class. -/
theorem object_ok (ht : a.values.map (Value.type h) = types) (i : Nat) {c : ObjectClass}
    (hi : types[i]? = some (.object c)) :
    ∃ r o, a.values[i]? = some (.object r) ∧ h.get? r = some o ∧ o.kind = c ∧
      ∀ s, (object a i).run ⟨h, s⟩ = (.ok r, ⟨h, s⟩) := by
  obtain ⟨v, hv, htype⟩ := value_at ht hi
  obtain ⟨r, o, rfl, ho, hk⟩ := Value.type_eq_object.1 htype
  refine ⟨r, o, hv, ho, hk, run_read ?_⟩
  simp only [Args.object, Args.get, hv]
  rfl

/-- What a native takes for an object of class `c` is one: `inject` makes those objects of the parts
that `view` finds in them. -/
theorem viewed_ok {α : Type} (inject : α → Object) {c : ObjectClass} {view : Object → Option α}
    (hview : ∀ o, o.kind = c → ∃ x, o = inject x ∧ view o = some x)
    (ht : a.values.map (Value.type h) = types) (i : Nat) (hi : types[i]? = some (.object c)) :
    ∃ r x, a.values[i]? = some (.object r) ∧ h.get? r = some (inject x) ∧
      ∀ s, (object a i).run ⟨h, s⟩ = (.ok r, ⟨h, s⟩) ∧
        (viewed c view r).run ⟨h, s⟩ = (.ok x, ⟨h, s⟩) := by
  obtain ⟨r, o, hv, ho, hk, hread⟩ := object_ok ht i hi
  obtain ⟨x, rfl, hx⟩ := hview o hk
  refine ⟨r, x, hv, ho, fun s => ⟨hread s, ?_⟩⟩
  have ho' : (Machine.mk h s).heap.get? r = some (inject x) := ho
  simp only [viewed, Action.run_bind, Action.run_object ho', hx, Action.run_pure]

theorem gasket_ok (ht : a.values.map (Value.type h) = types) (i : Nat)
    (hi : types[i]? = some (.object .apollonian)) :
    ∃ r g, a.values[i]? = some (.object r) ∧ h.get? r = some (.apollonian g) ∧
      ∀ s, (object a i).run ⟨h, s⟩ = (.ok r, ⟨h, s⟩) ∧
        (gasket r).run ⟨h, s⟩ = (.ok g, ⟨h, s⟩) := by
  refine viewed_ok Object.apollonian (fun o ho => ?_) ht i hi
  cases o <;> cases ho
  exact ⟨_, rfl, rfl⟩

theorem fractal_ok (ht : a.values.map (Value.type h) = types) (i : Nat)
    (hi : types[i]? = some (.object .sierpinski)) :
    ∃ r f, a.values[i]? = some (.object r) ∧ h.get? r = some (.sierpinski f) ∧
      ∀ s, (object a i).run ⟨h, s⟩ = (.ok r, ⟨h, s⟩) ∧
        (fractal r).run ⟨h, s⟩ = (.ok f, ⟨h, s⟩) := by
  refine viewed_ok Object.sierpinski (fun o ho => ?_) ht i hi
  cases o <;> cases ho
  exact ⟨_, rfl, rfl⟩

theorem labelledPoint_ok (ht : a.values.map (Value.type h) = types) (i : Nat)
    (hi : types[i]? = some (.object .point)) :
    ∃ r p, a.values[i]? = some (.object r) ∧ h.get? r = some (.point p) ∧
      ∀ s, (object a i).run ⟨h, s⟩ = (.ok r, ⟨h, s⟩) ∧
        (labelledPoint r).run ⟨h, s⟩ = (.ok p, ⟨h, s⟩) := by
  refine viewed_ok Object.point (fun o ho => ?_) ht i hi
  cases o <;> cases ho
  exact ⟨_, rfl, rfl⟩

theorem labelledCircle_ok (ht : a.values.map (Value.type h) = types) (i : Nat)
    (hi : types[i]? = some (.object .circle)) :
    ∃ r c, a.values[i]? = some (.object r) ∧ h.get? r = some (.circle c) ∧
      ∀ s, (object a i).run ⟨h, s⟩ = (.ok r, ⟨h, s⟩) ∧
        (labelledCircle r).run ⟨h, s⟩ = (.ok c, ⟨h, s⟩) := by
  refine viewed_ok Object.circle (fun o ho => ?_) ht i hi
  cases o <;> cases ho
  exact ⟨_, rfl, rfl⟩

end Arguments

/-! ## Drawing and growing -/

theorem draw_deeds {f : Native} {c : ObjectClass}
    (hsigs : f.overloads.signatures = [.of [("self", .object c)] .nothing,
      .of [("self", .object c), ("stroke", .colour)] .nothing])
    (hrun : f.run = draw) (hname : ∀ r stroke, f.name ∈ (Deed.display r stroke).doers) :
    f.DoesDeeds := by
  refine Native.doesDeeds ?_
  rw [hsigs]
  rintro (_ | _ | i) sig hsig <;> cases hsig
  · intro h a (hi : a.overload = 0) ht
    obtain ⟨r, o, hv, ho, -, hread⟩ := object_ok ht 0 rfl
    have hlen : a.values.length = 1 := by
      simpa [Signature.types, Signature.of] using congrArg List.length ht
    refine ⟨.display r defaultStroke, ⟨rfl, ?_, ?_, o, ho⟩, hname _ _, trivial, fun s => ?_⟩
    · rw [List.head?_eq_getElem?, hv]
    · rw [Deed.stroke, List.getElem?_eq_none (Nat.le_of_eq hlen)]
    · simp only [hrun, draw, hi, if_true, Action.run_bind, hread, Action.run_pure,
        Action.run_modifySession]
      rfl
  · intro h a (hi : a.overload = 1) ht
    obtain ⟨r, o, hv, ho, -, hread⟩ := object_ok ht 0 rfl
    obtain ⟨stroke, hc, hstroke⟩ := colour_ok ht 1 rfl
    refine ⟨.display r stroke, ⟨rfl, ?_, ?_, o, ho⟩, hname _ _, trivial, fun s => ?_⟩
    · rw [List.head?_eq_getElem?, hv]
    · rw [Deed.stroke, hc]
    · simp only [hrun, draw, hi, Nat.one_ne_zero, if_false, Action.run_bind, hread, hstroke,
        Action.run_pure, Action.run_modifySession]
      rfl

theorem run_grow (r : ObjectRef) (o : Object) (m : Machine) :
    (grow r o).run m = (Deed.grow r o).perform m := rfl

theorem run_mapM_new {β : Type} (mk : β → Object) (xs : List β) (m : Machine) :
    (xs.mapM fun x => Action.new (mk x)).run m =
      (.ok ((m.heap.allocAll (xs.map mk)).1.map .object),
        { m with heap := (m.heap.allocAll (xs.map mk)).2 }) := by
  induction xs generalizing m with
  | nil => rfl
  | cons x xs ih =>
    simp only [List.mapM_cons, Action.run_bind, Action.run_new, ih, Action.run_pure]
    rfl

theorem run_field (owner : ObjectClass) (known : List String) (name : String) (value : Option Float)
    (m : Machine) :
    (field owner known name value).run m =
      (match value with
        | some x => Deed.answer x
        | none => Deed.refuse owner name known).perform m := by
  cases value <;> rfl

/-! ## Gaskets -/

namespace Apol

theorem construct_deeds : construct.DoesDeeds := by
  refine Native.doesDeeds ?_
  rintro (_ | _ | i) sig hsig <;> cases hsig
  · intro h a (hi : a.overload = 0) ht
    refine ⟨.make (.apollonian (.empty .origin)), rfl, by simp [Deed.doers, construct],
      .gasket _, fun s => ?_⟩
    simp only [construct, hi, if_true, Action.run_bind, Action.run_pure, Action.run_new]
    rfl
  · intro h a (hi : a.overload = 1) ht
    obtain ⟨x, hx⟩ := number_ok ht 0 rfl
    obtain ⟨y, hy⟩ := number_ok ht 1 rfl
    refine ⟨.make (.apollonian (.empty ⟨x, y⟩)), rfl, by simp [Deed.doers, construct],
      .gasket _, fun s => ?_⟩
    simp only [construct, hi, Nat.one_ne_zero, if_false, Action.run_bind, hx, hy,
      Action.run_pure, Action.run_new]
    rfl

theorem enclosing_deeds : enclosing.DoesDeeds := by
  refine Native.doesDeeds ?_
  rintro (_ | i) sig hsig <;> cases hsig
  intro h a _ ht
  obtain ⟨r, g, hv, hg, hread⟩ := gasket_ok ht 0 rfl
  obtain ⟨radius, hradius⟩ := number_ok ht 1 rfl
  refine ⟨.grow r (.apollonian (g.enclose radius)), ⟨rfl, ?_, _, hg, rfl⟩,
    by simp [Deed.doers, enclosing], ⟨_, hg, .enclosed g radius⟩, fun s => ?_⟩
  · rw [List.head?_eq_getElem?, hv]
  · simp only [enclosing, Action.run_bind, hradius, hread, run_grow]

theorem next_deeds : next.DoesDeeds := by
  refine Native.doesDeeds ?_
  rintro (_ | i) sig hsig <;> cases hsig
  intro h a _ ht
  obtain ⟨r, g, hv, hg, hread⟩ := gasket_ok ht 0 rfl
  refine ⟨.grow r (.apollonian g.next), ⟨rfl, ?_, _, hg, rfl⟩, by simp [Deed.doers, next],
    ⟨_, hg, .filled g⟩, fun s => ?_⟩
  · rw [List.head?_eq_getElem?, hv]
  · simp only [next, Action.run_bind, hread, run_grow]

theorem count_deeds : count.DoesDeeds := by
  refine Native.doesDeeds ?_
  rintro (_ | i) sig hsig <;> cases hsig
  intro h a _ ht
  obtain ⟨r, g, -, -, hread⟩ := gasket_ok ht 0 rfl
  refine ⟨.answer (Float.ofNat g.circles.length), rfl, by simp [Deed.doers, count], trivial,
    fun s => ?_⟩
  simp only [count, Action.run_bind, hread, Action.run_pure]
  rfl

end Apol

/-! ## Sierpinski fractals -/

namespace Sierp

theorem construct_deeds : construct.DoesDeeds := by
  refine Native.doesDeeds ?_
  rintro (_ | _ | i) sig hsig <;> cases hsig
  · intro h a (hi : a.overload = 0) ht
    obtain ⟨x₁, hx₁⟩ := number_ok ht 0 rfl
    obtain ⟨y₁, hy₁⟩ := number_ok ht 1 rfl
    obtain ⟨x₂, hx₂⟩ := number_ok ht 2 rfl
    obtain ⟨y₂, hy₂⟩ := number_ok ht 3 rfl
    obtain ⟨x₃, hx₃⟩ := number_ok ht 4 rfl
    obtain ⟨y₃, hy₃⟩ := number_ok ht 5 rfl
    refine ⟨.make (.sierpinski (.ofSeed ⟨⟨x₁, y₁⟩, ⟨x₂, y₂⟩, ⟨x₃, y₃⟩⟩)), rfl,
      by simp [Deed.doers, construct], .fractal _, fun s => ?_⟩
    simp only [construct, hi, if_true, Action.run_bind, hx₁, hy₁, hx₂, hy₂, hx₃, hy₃,
      Action.run_pure, Action.run_new]
    rfl
  · intro h a (hi : a.overload = 1) ht
    obtain ⟨_, p, -, -, hp⟩ := labelledPoint_ok ht 0 rfl
    obtain ⟨_, q, -, -, hq⟩ := labelledPoint_ok ht 1 rfl
    obtain ⟨_, t, -, -, ht'⟩ := labelledPoint_ok ht 2 rfl
    refine ⟨.make (.sierpinski (.ofSeed ⟨p.point, q.point, t.point⟩)), rfl,
      by simp [Deed.doers, construct], .fractal _, fun s => ?_⟩
    simp only [construct, hi, Nat.one_ne_zero, if_false, corner, Action.run_bind, hp, hq, ht',
      Action.run_pure, Action.run_new]
    rfl

theorem next_deeds : next.DoesDeeds := by
  refine Native.doesDeeds ?_
  rintro (_ | i) sig hsig <;> cases hsig
  intro h a _ ht
  obtain ⟨r, f, hv, hf, hread⟩ := fractal_ok ht 0 rfl
  refine ⟨.grow r (.sierpinski f.next), ⟨rfl, ?_, _, hf, rfl⟩, by simp [Deed.doers, next],
    ⟨_, hf, .divided f⟩, fun s => ?_⟩
  · rw [List.head?_eq_getElem?, hv]
  · simp only [next, Action.run_bind, hread, run_grow]

theorem count_deeds : count.DoesDeeds := by
  refine Native.doesDeeds ?_
  rintro (_ | i) sig hsig <;> cases hsig
  intro h a _ ht
  obtain ⟨r, f, -, -, hread⟩ := fractal_ok ht 0 rfl
  refine ⟨.answer (Float.ofNat f.triangles.length), rfl, by simp [Deed.doers, count], trivial,
    fun s => ?_⟩
  simp only [count, Action.run_bind, hread, Action.run_pure]
  rfl

end Sierp

/-! ## Hexagonal tilings -/

theorem Hexa.construct_deeds : Hexa.construct.DoesDeeds := by
  refine Native.doesDeeds ?_
  rintro (_ | _ | i) sig hsig <;> cases hsig
  · intro h a (hi : a.overload = 0) ht
    obtain ⟨x, hx⟩ := number_ok ht 0 rfl
    obtain ⟨y, hy⟩ := number_ok ht 1 rfl
    obtain ⟨size, hsize⟩ := number_ok ht 2 rfl
    refine ⟨.make (.hexagons (.ofRings ⟨x, y⟩ size defaultRings)), rfl,
      by simp [Deed.doers, construct], .tiling _ _ _, fun s => ?_⟩
    simp only [construct, hi, if_true, Action.run_bind, hx, hy, hsize, Action.run_pure,
      Action.run_new]
    rfl
  · intro h a (hi : a.overload = 1) ht
    obtain ⟨x, hx⟩ := number_ok ht 0 rfl
    obtain ⟨y, hy⟩ := number_ok ht 1 rfl
    obtain ⟨size, hsize⟩ := number_ok ht 2 rfl
    obtain ⟨n, hn⟩ := number_ok ht 3 rfl
    refine ⟨.make (.hexagons (.ofRings ⟨x, y⟩ size (rings n))), rfl,
      by simp [Deed.doers, construct], .tiling _ _ _, fun s => ?_⟩
    simp only [construct, hi, Nat.one_ne_zero, if_false, Action.run_bind, Action.run_map, hx, hy,
      hsize, hn, Action.run_new]
    rfl

/-! ## Points -/

namespace Point

theorem construct_deeds : construct.DoesDeeds := by
  refine Native.doesDeeds ?_
  rintro (_ | _ | i) sig hsig <;> cases hsig
  · intro h a (hi : a.overload = 0) ht
    obtain ⟨x, hx⟩ := number_ok ht 0 rfl
    obtain ⟨y, hy⟩ := number_ok ht 1 rfl
    refine ⟨.make (.point ⟨⟨x, y⟩, none⟩), rfl, by simp [Deed.doers, construct], .point _,
      fun s => ?_⟩
    simp only [construct, hi, Nat.zero_ne_one, if_false, Action.run_bind, hx, hy,
      Action.run_pure, Action.run_new]
    rfl
  · intro h a (hi : a.overload = 1) ht
    obtain ⟨x, hx⟩ := number_ok ht 0 rfl
    obtain ⟨y, hy⟩ := number_ok ht 1 rfl
    obtain ⟨label, hlabel⟩ := text_ok ht 2 rfl
    refine ⟨.make (.point ⟨⟨x, y⟩, some label⟩), rfl, by simp [Deed.doers, construct], .point _,
      fun s => ?_⟩
    simp only [construct, hi, if_true, Action.run_bind, Action.run_map, hx, hy, hlabel,
      Action.run_new]
    rfl

theorem get_deeds : get.DoesDeeds := by
  refine Native.doesDeeds ?_
  rintro (_ | i) sig hsig <;> cases hsig
  intro h a _ ht
  obtain ⟨r, p, -, -, hread⟩ := labelledPoint_ok ht 0 rfl
  obtain ⟨name, hname⟩ := text_ok ht 1 rfl
  cases hfield : p.field? name with
  | some x =>
    refine ⟨.answer x, rfl, by simp [Deed.doers, get], trivial, fun s => ?_⟩
    simp only [get, Action.run_bind, hread, hname, run_field, hfield]
  | none =>
    refine ⟨.refuse .point name LabelledPoint.fields, rfl, by simp [Deed.doers, get], trivial,
      fun s => ?_⟩
    simp only [get, Action.run_bind, hread, hname, run_field, hfield]

end Point

/-! ## Circles -/

namespace Circle

theorem construct_deeds : construct.DoesDeeds := by
  refine Native.doesDeeds ?_
  rintro (_ | _ | _ | i) sig hsig <;> cases hsig
  · intro h a (hi : a.overload = 0) ht
    obtain ⟨x, hx⟩ := number_ok ht 0 rfl
    obtain ⟨y, hy⟩ := number_ok ht 1 rfl
    obtain ⟨radius, hradius⟩ := number_ok ht 2 rfl
    refine ⟨.make (.circle ⟨.ofRadius x y radius, none⟩), rfl, by simp [Deed.doers, construct],
      .circle _ _ _ _, fun s => ?_⟩
    simp only [construct, hi, Action.run_bind, hx, hy, hradius, Action.run_pure, Action.run_new]
    rfl
  · intro h a (hi : a.overload = 1) ht
    obtain ⟨x, hx⟩ := number_ok ht 0 rfl
    obtain ⟨y, hy⟩ := number_ok ht 1 rfl
    obtain ⟨radius, hradius⟩ := number_ok ht 2 rfl
    obtain ⟨label, hlabel⟩ := text_ok ht 3 rfl
    refine ⟨.make (.circle ⟨.ofRadius x y radius, some label⟩), rfl,
      by simp [Deed.doers, construct], .circle _ _ _ _, fun s => ?_⟩
    simp only [construct, hi, Action.run_bind, hx, hy, hradius, hlabel, Action.run_pure,
      Action.run_new]
    rfl
  · intro h a (hi : a.overload = 2) ht
    obtain ⟨r, p, -, -, hread⟩ := labelledPoint_ok ht 0 rfl
    obtain ⟨radius, hradius⟩ := number_ok ht 1 rfl
    refine ⟨.make (.circle ⟨.ofRadius p.point.x p.point.y radius, none⟩), rfl,
      by simp [Deed.doers, construct], .circle _ _ _ _, fun s => ?_⟩
    simp only [construct, hi, Action.run_bind, hread, hradius, Action.run_pure, Action.run_new]
    rfl

theorem get_deeds : get.DoesDeeds := by
  refine Native.doesDeeds ?_
  rintro (_ | i) sig hsig <;> cases hsig
  intro h a _ ht
  obtain ⟨r, c, -, -, hread⟩ := labelledCircle_ok ht 0 rfl
  obtain ⟨name, hname⟩ := text_ok ht 1 rfl
  cases hfield : c.field? name with
  | some x =>
    refine ⟨.answer x, rfl, by simp [Deed.doers, get], trivial, fun s => ?_⟩
    simp only [get, Action.run_bind, hread, hname, run_field, hfield]
  | none =>
    refine ⟨.refuse .circle name LabelledCircle.fields, rfl, by simp [Deed.doers, get], trivial,
      fun s => ?_⟩
    simp only [get, Action.run_bind, hread, hname, run_field, hfield]

theorem intersect_deeds : intersect.DoesDeeds := by
  refine Native.doesDeeds ?_
  rintro (_ | i) sig hsig <;> cases hsig
  intro h a _ ht
  obtain ⟨_, c, -, -, hc⟩ := labelledCircle_ok ht 0 rfl
  obtain ⟨_, d, -, -, hd⟩ := labelledCircle_ok ht 1 rfl
  have hpoints : ∀ o ∈ (c.intersect d).map Object.point, o.Fresh := by
    intro o ho
    obtain ⟨p, -, rfl⟩ := List.mem_map.1 ho
    exact .point p
  refine ⟨.makeAll ((c.intersect d).map .point), rfl, by simp [Deed.doers, intersect], hpoints,
    fun s => ?_⟩
  simp only [intersect, Action.run_bind, hc, hd, run_mapM_new, Action.run_pure]
  rfl

end Circle

/-! ## The registry -/

/-- **Every native of the library does deeds.** -/
theorem deeds {f : Native} (hf : f ∈ registry.natives) : f.DoesDeeds := by
  simp only [Registry.natives, registry, classes, List.flatMap_cons, List.flatMap_nil,
    NativeClass.natives, List.cons_append, List.nil_append, List.mem_cons, List.not_mem_nil,
    or_false] at hf
  rcases hf with rfl | rfl | rfl | rfl | rfl | rfl | rfl | rfl | rfl | rfl | rfl | rfl | rfl |
    rfl | rfl | rfl | rfl | rfl
  · exact Apol.construct_deeds
  · exact Apol.enclosing_deeds
  · exact Apol.next_deeds
  · exact Apol.count_deeds
  · exact draw_deeds rfl rfl fun _ _ => by simp [Deed.doers, Apol.draw]
  · exact Sierp.construct_deeds
  · exact Sierp.next_deeds
  · exact Sierp.count_deeds
  · exact draw_deeds rfl rfl fun _ _ => by simp [Deed.doers, Sierp.draw]
  · exact Hexa.construct_deeds
  · exact draw_deeds rfl rfl fun _ _ => by simp [Deed.doers, Hexa.draw]
  · exact Point.construct_deeds
  · exact Point.get_deeds
  · exact draw_deeds rfl rfl fun _ _ => by simp [Deed.doers, Point.draw]
  · exact Circle.construct_deeds
  · exact Circle.get_deeds
  · exact Circle.intersect_deeds
  · exact draw_deeds rfl rfl fun _ _ => by simp [Deed.doers, Circle.draw]

end Natives

/-! ## Who draws and who grows -/

/-- The natives that put their receiver on the canvas. -/
def Natives.drawing : List String := classes.map fun c => c.kind.scriptName ++ ".draw"

/-- The natives that let their receiver grow. -/
def Natives.growing : List String :=
  "Apol.enclosing" :: classes.map fun c => c.kind.scriptName ++ ".next"

namespace Deed

/-- The deed puts its receiver on the canvas. -/
def draws : Deed → Bool
  | display _ _ => true
  | _ => false

/-- The deed lets its receiver grow. -/
def grows : Deed → Bool
  | grow _ _ => true
  | _ => false

variable {d : Deed} {name : String}

theorem mem_drawing (h : name ∈ d.doers) : name ∈ Natives.drawing ↔ d.draws = true := by
  revert name
  cases d <;> simp only [doers, draws] <;> decide

theorem mem_growing (h : name ∈ d.doers) : name ∈ Natives.growing ↔ d.grows = true := by
  revert name
  cases d <;> simp only [doers, grows] <;> decide

end Deed

end Easel
