import Easel.Proofs.Geometry.Subdivision

/-!
# What a fractal keeps account of

A generation draws one triangle in every triangle of the frontier and leaves the three corners
around it. `Sierpinski.Divides` says by position which triangle is drawn where and which corners it
leaves, and `Sierpinski.Counted` how many triangles there are after `n` generations. None of it
depends on where the triangles lie: it holds of triangles that are degenerate and of coordinates
that are infinite or undefined as it does of all others.
-/

namespace Easel

namespace Sierpinski

/-- Where three entries come from each entry of a list, those from the `i`-th start at `3 * i`. -/
theorem getElem?_flatMap_three {β γ : Type} (a b c : β → γ) (l : List β) (i : ℕ) :
    (l.flatMap fun x => [a x, b x, c x])[3 * i]? = l[i]?.map a ∧
      (l.flatMap fun x => [a x, b x, c x])[3 * i + 1]? = l[i]?.map b ∧
      (l.flatMap fun x => [a x, b x, c x])[3 * i + 2]? = l[i]?.map c := by
  induction l generalizing i with
  | nil => simp
  | cons x l ih =>
    cases i with
    | zero => simp
    | succ i => simpa [Nat.mul_succ] using ih i

variable {α : Type} [Analytic α]

theorem triangles_next (s : Sierpinski α) :
    s.next.triangles = s.triangles ++ s.frontier.map inner := by
  simp only [next, List.map_map]
  rfl

theorem frontier_next (s : Sierpinski α) :
    s.next.frontier = s.frontier.flatMap fun t => corners t (inner t) := by
  simp only [next, List.flatMap_map]

theorem length_triangles_next (s : Sierpinski α) :
    s.next.triangles.length = s.triangles.length + s.frontier.length := by
  rw [triangles_next, List.length_append, List.length_map]

/-- Every triangle that is divided leaves three. -/
theorem length_frontier_next (s : Sierpinski α) :
    s.next.frontier.length = 3 * s.frontier.length := by
  rw [frontier_next, List.length_flatMap]
  simp [corners, Nat.mul_comm]

/-- What a generation does to a fractal. The `i`-th triangle of the frontier is divided by the
`i`-th triangle that is drawn, and the corners it leaves are the three entries of the next frontier
from `3 * i` on: each has two of the feet that are drawn and one of the old vertices. -/
structure Divides (s : Sierpinski α) : Prop where
  /-- All triangles drawn before stay, and nothing is drawn but what the frontier adds. -/
  keeps : s.triangles <+: s.next.triangles
  answers : s.added = s.frontier.length ∧
    s.next.triangles.length = s.triangles.length + s.added
  draws : ∀ i, s.next.triangles[s.triangles.length + i]? = s.frontier[i]?.map fun t =>
    ⟨t.altitudeFeet.1, t.altitudeFeet.2.1, t.altitudeFeet.2.2⟩
  cornerC : ∀ i, s.next.frontier[3 * i]? = s.frontier[i]?.map fun t =>
    ⟨t.altitudeFeet.1, t.altitudeFeet.2.1, t.c⟩
  cornerB : ∀ i, s.next.frontier[3 * i + 1]? = s.frontier[i]?.map fun t =>
    ⟨t.altitudeFeet.1, t.b, t.altitudeFeet.2.2⟩
  cornerA : ∀ i, s.next.frontier[3 * i + 2]? = s.frontier[i]?.map fun t =>
    ⟨t.a, t.altitudeFeet.2.1, t.altitudeFeet.2.2⟩

theorem divides (s : Sierpinski α) : s.Divides where
  keeps := by
    rw [triangles_next]
    exact List.prefix_append _ _
  answers := ⟨rfl, s.length_triangles_next⟩
  draws i := by
    rw [triangles_next, List.getElem?_append_right (Nat.le_add_right _ _), Nat.add_sub_cancel_left,
      List.getElem?_map]
    rfl
  cornerC i := by
    rw [frontier_next]
    exact (getElem?_flatMap_three _ _ _ _ i).1
  cornerB i := by
    rw [frontier_next]
    exact (getElem?_flatMap_three _ _ _ _ i).2.1
  cornerA i := by
    rw [frontier_next]
    exact (getElem?_flatMap_three _ _ _ _ i).2.2

/-- What a fractal that `t` is the seed of holds after `n` generations. -/
structure Counted (t : Triangle α) (n : ℕ) (s : Sierpinski α) : Prop where
  seed : s.seed = t
  /-- The seed is drawn first. -/
  first : s.triangles.head? = some t
  frontier : s.frontier.length = 3 ^ n
  triangles : s.triangles.length = 1 + (3 ^ n - 1) / 2
  generation : s.generation = n

namespace Counted

variable {t : Triangle α} {n : ℕ} {s : Sierpinski α}

theorem next (h : Counted t n s) : Counted t (n + 1) s.next where
  seed := h.seed
  first := by rw [triangles_next, List.head?_append, h.first, Option.some_or]
  frontier := by rw [length_frontier_next, h.frontier, pow_succ']
  triangles := by
    -- the powers of three are odd
    have hodd : 3 ^ n % 2 = 1 := by rw [Nat.pow_mod, Nat.one_pow]
    rw [length_triangles_next, h.triangles, h.frontier, pow_succ']
    omega
  generation := congrArg (· + 1) h.generation

end Counted

theorem counted_grown (seed : Triangle α) (n : ℕ) : Counted seed n (grown seed n) := by
  induction n with
  | zero => exact ⟨rfl, rfl, rfl, rfl, rfl⟩
  | succ n ih => exact ih.next

/-- **A fractal keeps account of its triangles.** Whatever the seed is, after `n` generations there
are as many triangles as in the classical subdivision, and the next generation draws one in each of
the frontier and leaves its corners in their order. -/
theorem triangles_accounted (seed : Triangle α) (n : ℕ) :
    Counted seed n (grown seed n) ∧ (grown seed n).Divides :=
  ⟨counted_grown seed n, (grown seed n).divides⟩

end Sierpinski

end Easel
