import Easel.Proofs.Geometry.Growth
import Easel.Proofs.Number.Signs
import Easel.Proofs.Sketch.Objects

/-!
# The circles that scripts hold

A circle keeps its radius and its curvature, and two constructors derive one from the other. Gaskets
make circles of curvatures only, whose radius is a magnitude. Scripts make circles of radii only,
and the radius is kept as it was given, whatever its sign. So a radius is negative only where a
script gave a negative one; all other circles have a radius and a curvature that agree.
-/

namespace Easel

/-! ## Radius and curvature -/

namespace Circle

/-- Unless one of them is undefined, the radius is the magnitude of the inverse of the curvature, or
the magnitude of the curvature is the inverse of the radius. -/
def Consistent (c : Circle Float) : Prop :=
  c.radius.isNaN = false → c.curvature.isNaN = false →
    (c.radius == (1 / c.curvature).abs) = true ∨ (c.curvature.abs == 1 / c.radius) = true

/-- The circle is made of its curvature. -/
def Curved (c : Circle Float) : Prop := c.radius = (1 / c.curvature).abs

variable {c : Circle Float}

theorem curved_ofCurvature (x y k : Float) : (ofCurvature x y k).Curved := rfl

theorem Curved.not_neg (h : c.Curved) : ¬c.radius < 0 := by
  rw [h]
  exact (Binary64.unsigned_abs _).not_neg

theorem Curved.consistent (h : c.Curved) : c.Consistent := by
  intro hradius _
  left
  rw [← h]
  exact Binary64.beq_self hradius

/-- A circle that is made of a radius agrees with it, unless the radius is negative. -/
theorem consistent_of_radius (h : c.curvature = 1 / c.radius) (hneg : ¬c.radius < 0) :
    c.Consistent := by
  intro _ hcurvature
  rw [h] at hcurvature ⊢
  exact Binary64.inverse_magnitude hneg hcurvature

end Circle

/-! ## Gaskets -/

/-- A circle that fills a gap is made of its curvature. -/
theorem Gap.curved_of_mem_inscribed {g : Gap Float} {c : Circle Float} (hc : c ∈ g.inscribed) :
    c.Curved := by
  rw [inscribed, List.mem_filter] at hc
  obtain ⟨z, -, rfl⟩ := List.mem_map.1 hc.1
  exact Circle.curved_ofCurvature _ _ _

namespace Gasket

/-- The circles that the gasket holds anywhere. -/
def held {α : Type} (g : Gasket α) : List (Circle α) :=
  g.enclosing.toList ++ g.circles ++ g.frontier.flatMap Gap.circles

/-- All circles of the gasket are made of their curvatures. -/
structure Curved (g : Gasket Float) : Prop where
  enclosing : ∀ c ∈ g.enclosing, c.Curved
  circles : ∀ c ∈ g.circles, c.Curved
  frontier : ∀ gap ∈ g.frontier, ∀ c ∈ gap.circles, c.Curved

variable {g : Gasket Float}

theorem Curved.held (h : g.Curved) : ∀ c ∈ g.held, c.Curved := by
  intro c hc
  rw [Gasket.held, List.mem_append, List.mem_append, Option.mem_toList, List.mem_flatMap] at hc
  rcases hc with (hc | hc) | ⟨gap, hgap, hc⟩
  · exact h.enclosing c hc
  · exact h.circles c hc
  · exact h.frontier gap hgap c hc

theorem curved_empty (origin : Point Float) : (empty origin).Curved where
  enclosing _ hc := by cases hc
  circles _ hc := by cases hc
  frontier _ hgap := by cases hgap

theorem curved_seed (origin : Point Float) (radius : Float) :
    ∀ c ∈ (seed origin radius).circles, c.Curved :=
  Gap.forall_mem_circles.2 ⟨rfl, rfl, rfl⟩

theorem curved_enclose (g : Gasket Float) (radius : Float) : (g.enclose radius).Curved where
  enclosing c hc := by
    cases hc
    rfl
  circles := curved_seed g.origin radius
  frontier gap hgap := by
    obtain rfl := List.mem_singleton.1 hgap
    exact curved_seed g.origin radius

theorem Curved.next (h : g.Curved) : g.next.Curved where
  enclosing := h.enclosing
  circles c hc := by
    rw [circles_next, List.mem_append, List.mem_flatMap] at hc
    rcases hc with hc | ⟨gap, -, hc⟩
    · exact h.circles c hc
    · exact Gap.curved_of_mem_inscribed hc
  frontier gap hgap d hd := by
    obtain ⟨old, hold, c, hc, haround⟩ := mem_frontier_next.1 hgap
    rcases (Gap.of_mem_around haround).2 d hd with rfl | hd
    · exact Gap.curved_of_mem_inscribed hc
    · exact h.frontier old hold d hd

end Gasket

/-! ## Objects -/

namespace Object

/-- The circles that an object holds. -/
def circles : Object → List (Circle Float)
  | apollonian g => g.held
  | circle c => [c.circle]
  | sierpinski _ | hexagons _ | point _ => []

/-- The circles of a gasket are made of curvatures, and that of a script of its radius. -/
def Rounded : Object → Prop
  | apollonian g => g.Curved
  | circle c => c.circle.curvature = 1 / c.circle.radius
  | sierpinski _ | hexagons _ | point _ => True

variable {o : Object}

theorem Made.rounded (h : o.Made) : o.Rounded := by
  induction h with
  | fresh hfresh =>
    cases hfresh with
    | gasket origin => exact Gasket.curved_empty origin
    | circle x y radius label => rfl
    | fractal | tiling | point => trivial
  | grown _ hgrows ih =>
    cases hgrows with
    | enclosed g radius => exact g.curved_enclose radius
    | filled g => exact Gasket.Curved.next ih
    | divided s => trivial

end Object

/-! ## Runs of natives -/

namespace Deed

variable {d : Deed} {name : String} {m : Machine}

/-- A deed makes genuine objects of genuine ones. -/
theorem genuine_perform (hd : d.Genuine name m.heap) (h : m.heap.Genuine) :
    (d.perform m).2.heap.Genuine := by
  cases d with
  | make o => exact h.alloc (.fresh hd)
  | makeAll os => exact h.allocAll fun o ho => .fresh (hd o ho)
  | grow r o =>
    obtain ⟨o₀, ho, hgrows⟩ := hd
    exact h.set r (.grown (h r o₀ ho) hgrows)
  | answer | refuse | display => exact h

end Deed

namespace Natives

variable {f : Native}

/-- An invocation of a registered native leaves all objects as they are, or does one deed. -/
theorem heap_invoke (hf : f ∈ registry.natives) (n : ℕ) (m : Machine) :
    ((f.invoke n).run m).2.heap = m.heap ∨
      ∃ (d : Deed) (s : Session), d.Genuine f.name m.heap ∧
        ((f.invoke n).run m).2.heap = (d.perform ⟨m.heap, s⟩).2.heap := by
  by_cases hn : m.session.depth < n
  · left
    rw [Native.run_invoke_error f (Native.run_takeArgs_underflow f hn)]
  have hle : n ≤ m.session.depth := not_lt.1 hn
  cases hr : f.resolve ((m.session.topValues n).map (Value.type m.heap)) with
  | error e =>
    left
    rw [Native.run_invoke_error f (Native.run_takeArgs_mismatch f hle hr)]
  | ok r =>
    have htake := Native.run_takeArgs f hle hr
    cases hplaceholder : f.placeholderFault m.heap m.session.stack[n]? with
    | some fault =>
      rw [hplaceholder] at htake
      left
      rw [Native.run_invoke_error f htake]
    | none =>
      rw [hplaceholder] at htake
      obtain ⟨d, hfits, -, hgenuine, hrun⟩ := deeds hf m.heap _ r hr
      refine .inr ⟨d, m.session.drop (n + 1), hgenuine, ?_⟩
      have hchecked := Deed.run_runChecked (m := ⟨m.heap, m.session.drop (n + 1)⟩) hfits (hrun _)
      rw [Native.run_invoke f htake, hchecked]
      rcases d.perform ⟨m.heap, m.session.drop (n + 1)⟩ with ⟨e | v, m'⟩
      · rfl
      · simp only [Native.deliver]
        split <;> rfl

end Natives

/-- What a host can bring about: it starts without objects and invokes registered natives, which may
fail, and in between it changes the session as it likes. -/
inductive Machine.Reached : Machine → Prop where
  | start (s : Session) : Reached { session := s }
  | session {m : Machine} (s : Session) (reached : Reached m) : Reached { m with session := s }
  | invoke {m : Machine} {f : Native} (registered : f ∈ Natives.registry.natives) (n : ℕ)
      (reached : Reached m) : Reached ((f.invoke n).run m).2

namespace Machine.Reached

variable {m : Machine} {f : Native}

/-- A call is an invocation with some care for the stack. -/
theorem call (hf : f ∈ Natives.registry.natives) (args : List Value) (h : m.Reached) :
    Reached ((f.call args).run m).2 := by
  have hinvoke := (h.session (m.session.frame f args)).invoke hf args.length
  rw [Native.run_call_invoke]
  revert hinvoke
  rcases (f.invoke args.length).run { m with session := m.session.frame f args } with ⟨e | ⟨⟩, m'⟩
  · exact fun h' => h'.session _
  · intro h'
    simp only [Native.collect]
    split
    · exact h'.session _
    · exact h'

theorem genuine (h : m.Reached) : m.heap.Genuine := by
  induction h with
  | start s =>
    intro q o hq
    cases hq
  | session s _ ih => exact ih
  | @invoke m f hf n _ ih =>
    rcases Natives.heap_invoke hf n m with hkept | ⟨d, s, hd, hdone⟩
    · rw [hkept]
      exact ih
    · rw [hdone]
      exact Deed.genuine_perform (m := ⟨m.heap, s⟩) hd ih

end Machine.Reached

/-- A radius is negative only in a circle that a script made from a radius, where the curvature is
its inverse, and all other circles are consistent. -/
def Heap.CirclesByRadius (h : Heap) : Prop :=
  ∀ q o, h.get? q = some o → ∀ c ∈ o.circles,
    (c.radius < 0 → ∃ label, o = .circle ⟨c, label⟩ ∧ c.curvature = 1 / c.radius) ∧
      (¬c.radius < 0 → c.Consistent)

theorem Heap.Genuine.circlesByRadius {h : Heap} (hh : h.Genuine) : h.CirclesByRadius := by
  intro q o ho c hc
  have hrounded := (hh q o ho).rounded
  cases o with
  | apollonian g =>
    have hcurved : c.Curved := hrounded.held c hc
    exact ⟨fun hneg => absurd hneg hcurved.not_neg, fun _ => hcurved.consistent⟩
  | circle labelled =>
    obtain rfl := List.mem_singleton.1 hc
    exact ⟨fun _ => ⟨labelled.label, rfl, hrounded⟩, Circle.consistent_of_radius hrounded⟩
  | sierpinski | hexagons | point => cases hc

namespace Natives

/-- A script may give a circle any number for a radius, and the circle keeps it. -/
theorem get?_construct (m : Machine) (x y radius : Float) :
    ((Circle.construct.call [.number x, .number y, .number radius]).run m).2.heap.get?
      ⟨m.heap.size⟩ = some (.circle ⟨.ofRadius x y radius, none⟩) := by
  have hcall : (Circle.construct.call [.number x, .number y, .number radius]).run m =
      (Deed.make (.circle ⟨.ofRadius x y radius, none⟩)).outcome (.object .circle) m :=
    Deed.run_call (r := ⟨0, .of [("x", .number), ("y", .number), ("r", .number)] (.object .circle)⟩)
      rfl rfl rfl
  rw [hcall]
  exact m.heap.get?_alloc_self (.circle ⟨.ofRadius x y radius, none⟩)

/-- **The circles that natives make.** In every run of registered natives, whatever their arguments
and whether they succeed or fail, and for every circle of every object: a radius is negative only if
a script gave it to a circle of its own, and the curvature is then its inverse. All other circles,
which are all those of gaskets and those of a script's radius that is not negative, are consistent:
the radius is never below zero, and the curvature alone says whether the circle encloses. The same
holds after the run of a sketch, whose snapshots copy circles. Nothing keeps a script from giving a
negative radius: whatever it gives is kept. -/
theorem circles_by_radius {m : Machine} (h : m.Reached) :
    m.heap.CirclesByRadius ∧
    (∀ (snapshots : Snapshots) (s : Sketch) (r : Run), s.run snapshots = .ok r →
      r.machine.heap.CirclesByRadius) ∧
    ∀ x y radius : Float, ∃ q,
      ((Circle.construct.call [.number x, .number y, .number radius]).run m).2.heap.get? q =
        some (.circle ⟨.ofRadius x y radius, none⟩) :=
  ⟨h.genuine.circlesByRadius, fun _ _ _ hrun => (Sketch.genuine_of_run hrun).circlesByRadius,
    fun x y radius => ⟨_, get?_construct m x y radius⟩⟩

/-- A gasket inside a circle of radius 100, and a circle whose radius a script gave as `-5`. -/
def inverted : Machine :=
  let made := ((Apol.construct.call []).run {}).2
  let enclosed := ((Apol.enclosing.call [.object ⟨0⟩, .number 100]).run made).2
  ((Circle.construct.call [.number 0, .number 0, .number (-5)]).run enclosed).2

theorem reached_inverted : inverted.Reached := by
  have hmem (name : String) {f : Native} (h : registry.get? name = some f) :
      f ∈ registry.natives := (Registry.get?_some h).1
  have hmade := (Machine.Reached.start {}).call (hmem "Apol" rfl) []
  have henclosed := hmade.call (hmem "Apol.enclosing" rfl) [.object ⟨0⟩, .number 100]
  exact henclosed.call (hmem "Circle" rfl) [.number 0, .number 0, .number (-5)]

theorem get?_inverted :
    inverted.heap.get? ⟨0⟩ = some (.apollonian (.seeded .origin 100)) ∧
      inverted.heap.get? ⟨1⟩ = some (.circle ⟨.ofRadius 0 0 (-5), none⟩) := ⟨rfl, rfl⟩

/-- The circle around the gasket is consistent and encloses; that of the script keeps the sign. -/
theorem circles_by_radius_inverted :
    (Gasket.seed .origin (100 : Float)).first.Consistent ∧
      (Gasket.seed .origin (100 : Float)).first.isEnclosing = true ∧
      (Circle.ofRadius 0 0 (-5 : Float)).radius < 0 ∧
      (Circle.ofRadius 0 0 (-5 : Float)).curvature = 1 / (-5) := by
  obtain ⟨hgasket, hcircle⟩ := get?_inverted
  obtain ⟨hcircles, -⟩ := circles_by_radius reached_inverted
  have houter := (hcircles _ _ hgasket (Gasket.seed .origin 100).first List.mem_cons_self).2
    (by decide)
  have hneg : (Circle.ofRadius 0 0 (-5 : Float)).radius < 0 := by decide
  obtain ⟨-, -, hinverse⟩ := (hcircles _ _ hcircle _ List.mem_cons_self).1 hneg
  exact ⟨houter, by decide, hneg, hinverse⟩

/-- A script can make a circle of negative radius. -/
theorem circle_negative : ¬∀ m : Machine, m.Reached → ∀ q o, m.heap.get? q = some o →
    ∀ c ∈ o.circles, ¬c.radius < 0 ∧ c.Consistent := by
  intro h
  have hc := h inverted reached_inverted ⟨1⟩ _ get?_inverted.2 _ List.mem_cons_self
  exact hc.1 (by decide)

end Natives

end Easel
