import Easel.Proofs.Geometry.Growth

/-!
# Tangency from one generation to the next

A circle is put into a gap only if it passes the test of tangency with all three circles around the
gap. The gaps that it leaves mix it with two of these, so what the old circles owe to each other has
to be carried along: `Gap.IsTight` is the invariant. It is the same test with the same tolerance in
every generation, so that rounding errors do not add up.
-/

namespace Easel

variable {α : Type} [Analytic α]

namespace Gap

/-- Every circle of the gap passes the test of tangency with those after it. -/
def IsTight (g : Gap α) : Prop :=
  g.circles.Pairwise fun c d => c.isTangentTo d Circle.tangencyTolerance = true

instance (g : Gap α) : Decidable g.IsTight :=
  inferInstanceAs (Decidable (g.circles.Pairwise _))

variable {g g' : Gap α} {c d : Circle α}

theorem isTangentTo_of_mem_inscribed (hc : c ∈ g.inscribed) (hd : d ∈ g.circles) :
    c.isTangentTo d Circle.tangencyTolerance = true :=
  List.all_eq_true.1 (List.mem_filter.1 hc).2 d hd

/-- A gap with a circle in it is divided into gaps that are as tight as it is. -/
theorem IsTight.around (h : g.IsTight) (hc : c ∈ g.inscribed) (hg' : g' ∈ g.around c) :
    g'.IsTight :=
  pairwise_of_mem_around h (fun _ hd => isTangentTo_of_mem_inscribed hc hd) hg'

end Gap

namespace Gasket

/-- Every circle besides those of the seed was put into a gap of an earlier generation. -/
theorem circles_grown (o : Point α) (r : α) (n : ℕ) :
    (grown o r n).circles = (seed o r).circles ++
      (List.range n).flatMap fun m => (grown o r m).frontier.flatMap Gap.inscribed := by
  induction n with
  | zero => exact (List.append_nil _).symm
  | succ n ih =>
    rw [grown, circles_next, ih, List.range_succ, List.flatMap_append, List.flatMap_singleton,
      List.append_assoc]

theorem isTight_grown {o : Point α} {r : α} (h : (seed o r).IsTight) (n : ℕ) :
    ∀ gap ∈ (grown o r n).frontier, gap.IsTight :=
  forall_mem_frontier_grown h Gap.IsTight.around n

/-- **Tangency is handed down.** All circles of a gasket besides those of its seed were put into
open gaps, and each passes the test of tangency with the three circles of the gap that it was put
into; if the circles of the seed pass it with each other, so do those of every gap that is ever
open, in floating point as in exact numbers. -/
theorem tangency_handed_down (o : Point α) (r : α) :
    (∀ n, (grown o r n).circles = (seed o r).circles ++
      (List.range n).flatMap fun m => (grown o r m).frontier.flatMap Gap.inscribed) ∧
    (∀ n, ∀ gap ∈ (grown o r n).frontier, ∀ c ∈ gap.inscribed, ∀ d ∈ gap.circles,
      c.isTangentTo d Circle.tangencyTolerance = true) ∧
    ((seed o r).IsTight → ∀ n, ∀ gap ∈ (grown o r n).frontier, gap.IsTight) :=
  ⟨circles_grown o r, fun _ _ _ _ hc _ hd => Gap.isTangentTo_of_mem_inscribed hc hd,
    isTight_grown⟩

/-- Away from the origin the seed is rounded, and tangency is handed down all the same. -/
theorem tangency_handed_down_rounded :
    (seed (⟨256, 180⟩ : Point Float) 120).IsTight ∧
      (grown (⟨256, 180⟩ : Point Float) 120 1).frontier.length = 6 ∧
      ∀ gap ∈ (grown (⟨256, 180⟩ : Point Float) 120 1).frontier, gap.IsTight := by
  have hseed : (seed (⟨256, 180⟩ : Point Float) 120).IsTight := by decide +kernel
  exact ⟨hseed, by decide +kernel, (tangency_handed_down ⟨256, 180⟩ 120).2.2 hseed 1⟩

end Gasket

end Easel
