import Easel.Proofs.Geometry.Packing

/-!
# What a gasket keeps account of

A gasket keeps its circles, the gaps between them that are open, and the number of its generations.
`Growth` follows a gasket that is seeded and filled in any order, and notes what each generation
answers; `Growth.Accounted` ties all of this together. None of it depends on where the circles are:
it holds for coordinates and radii that are infinite or undefined as it does for all others.
-/

namespace Easel

variable {α : Type}

namespace Gap

variable {g gap : Gap α} {c : Circle α}

/-- Around a new circle there are gaps of this circle and two of those around the gap it fills. -/
theorem circles_of_mem_around (h : gap ∈ g.around c) :
    ∃ old, gap.circles = c :: old ∧ old.Sublist g.circles := by
  simp only [around, List.mem_cons, List.not_mem_nil, or_false] at h
  rcases h with rfl | rfl | rfl
  · exact ⟨[g.first, g.second], rfl, by simp [circles]⟩
  · exact ⟨[g.second, g.third], rfl, by simp [circles]⟩
  · exact ⟨[g.first, g.third], rfl, by simp [circles]⟩

theorem of_mem_around (h : gap ∈ g.around c) :
    gap.first = c ∧ ∀ d ∈ gap.circles, d = c ∨ d ∈ g.circles := by
  obtain ⟨old, hcircles, hold⟩ := circles_of_mem_around h
  refine ⟨(List.cons.inj hcircles).1, fun d hd => ?_⟩
  rw [hcircles, List.mem_cons] at hd
  exact hd.imp_right fun hd => hold.subset hd

/-- What a new circle owes to the circles around it, and these to each other, is kept in the gaps
that it leaves. -/
theorem pairwise_of_mem_around {R : Circle α → Circle α → Prop} (hg : g.circles.Pairwise R)
    (hc : ∀ d ∈ g.circles, R c d) (h : gap ∈ g.around c) : gap.circles.Pairwise R := by
  obtain ⟨old, hcircles, hold⟩ := circles_of_mem_around h
  rw [hcircles, List.pairwise_cons]
  exact ⟨fun d hd => hc d (hold.subset hd), hg.sublist hold⟩

end Gap

variable [Analytic α]

namespace Gasket

theorem circles_next (g : Gasket α) :
    g.next.circles = g.circles ++ g.frontier.flatMap Gap.inscribed := by
  simp only [next, fillings, List.flatMap_map]

theorem length_flatMap_inscribed (g : Gasket α) :
    (g.frontier.flatMap Gap.inscribed).length = g.added := by
  simp only [added, fillings, List.flatMap_map]

/-- An open gap of the next generation is one of those around a circle that has just been found. -/
theorem mem_frontier_next {g : Gasket α} {gap : Gap α} :
    gap ∈ g.next.frontier ↔ ∃ old ∈ g.frontier, ∃ c ∈ old.inscribed, gap ∈ old.around c := by
  simp only [next, fillings, List.flatMap_map, List.mem_flatMap]

theorem first_mem_of_mem_frontier_next {g : Gasket α} {gap : Gap α} (h : gap ∈ g.next.frontier) :
    gap.first ∈ g.frontier.flatMap Gap.inscribed := by
  obtain ⟨old, hold, c, hc, hgap⟩ := mem_frontier_next.1 h
  rw [(Gap.of_mem_around hgap).1]
  exact List.mem_flatMap.2 ⟨old, hold, hc⟩

/-- What the gap of a seed has and circles put into gaps hand on, every gap of a gasket has. -/
theorem forall_mem_frontier_grown {P : Gap α → Prop} {o : Point α} {r : α} (hseed : P (seed o r))
    (haround : ∀ {g c gap}, P g → c ∈ Gap.inscribed g → gap ∈ g.around c → P gap) (n : ℕ) :
    ∀ gap ∈ (grown o r n).frontier, P gap := by
  induction n with
  | zero =>
    intro gap hgap
    rwa [List.mem_singleton.1 hgap]
  | succ n ih =>
    intro gap hgap
    obtain ⟨old, hold, c, hc, hgap⟩ := mem_frontier_next.1 hgap
    exact haround (ih old hold) hc hgap

/-- What a generation does to a gasket. -/
structure Fills (g : Gasket α) : Prop where
  /-- All circles stay, and each open gap adds those that fill it. -/
  appends : g.next.circles = g.circles ++ g.frontier.flatMap Gap.inscribed
  answers : (g.frontier.flatMap Gap.inscribed).length = g.added
  inscribes : ∀ gap ∈ g.frontier, gap.inscribed.length ≤ 2
  bounded : g.added ≤ 2 * g.frontier.length
  opens : g.next.frontier.length = 3 * g.added
  /-- Every gap that is open then has a new circle as its first. -/
  fresh : ∀ gap ∈ g.next.frontier, gap.first ∈ g.frontier.flatMap Gap.inscribed

theorem fills (g : Gasket α) : g.Fills where
  appends := g.circles_next
  answers := g.length_flatMap_inscribed
  inscribes gap _ := length_inscribed_le gap
  bounded := g.added_le
  opens := g.length_frontier_next
  fresh _ := first_mem_of_mem_frontier_next

end Gasket

/-! ## Seeding and filling in any order -/

/-- What can be done to a gasket. -/
inductive GasketOp (α : Type) where
  | enclose (radius : α)
  | next

/-- A gasket and what was done to it since it was last seeded. -/
structure Growth (α : Type) where
  gasket : Gasket α
  /-- The radius that it was seeded with, once it was. -/
  radius : Option α := none
  /-- What the generations since then have answered, the latest first. -/
  answers : List Nat := []

namespace Growth

def perform (t : Growth α) : GasketOp α → Growth α
  | .enclose radius => { gasket := t.gasket.enclose radius, radius := some radius }
  | .next => { t with gasket := t.gasket.next, answers := t.gasket.added :: t.answers }

/-- A gasket around a point after some operations. -/
def grow (origin : Point α) (ops : List (GasketOp α)) : Growth α :=
  ops.foldl perform { gasket := .empty origin }

/-- What a gasket around `o` holds fits what was done to it. -/
structure Accounted (o : Point α) (t : Growth α) : Prop where
  origin : t.gasket.origin = o
  enclosing : t.gasket.enclosing = t.radius.map fun r => .ofCurvature o.x o.y (-1 / r)
  /-- The first circle is the enclosing one. -/
  first : t.gasket.circles.head? = t.gasket.enclosing
  /-- There are the three circles of the seed and those that the generations have added. -/
  count : t.gasket.circles.length = (if t.radius.isSome then 3 else 0) + t.answers.sum
  generation : t.gasket.generation = t.answers.length
  /-- The circles around open gaps are circles of the gasket. -/
  around : ∀ gap ∈ t.gasket.frontier, ∀ c ∈ gap.circles, c ∈ t.gasket.circles
  /-- The first circle of an open gap is one of those that the latest generation has added. -/
  latest : ∀ n rest, t.answers = n :: rest → ∀ gap ∈ t.gasket.frontier,
    gap.first ∈ t.gasket.circles.drop (t.gasket.circles.length - n)

namespace Accounted

variable {o : Point α} {t : Growth α}

theorem empty (o : Point α) : Accounted o { gasket := .empty o } where
  origin := rfl
  enclosing := rfl
  first := rfl
  count := rfl
  generation := rfl
  around _ h := absurd h List.not_mem_nil
  latest _ _ h := by cases h

theorem enclose (h : Accounted o t) (radius : α) : Accounted o (t.perform (.enclose radius)) := by
  have hseeded : t.perform (.enclose radius) =
      { gasket := .seeded o radius, radius := some radius } := by
    rw [perform, Gasket.enclose, h.origin]
  rw [hseeded]
  refine ⟨rfl, rfl, rfl, rfl, rfl, fun gap hgap c hc => ?_, fun _ _ hanswers => by cases hanswers⟩
  rwa [List.mem_singleton.1 hgap] at hc

/-- As long as there are no circles, no gap is open. -/
theorem frontier_eq_nil (h : Accounted o t) (hcircles : t.gasket.circles = []) :
    t.gasket.frontier = [] := by
  refine List.eq_nil_iff_forall_not_mem.2 fun gap hgap => ?_
  have hfirst := h.around gap hgap gap.first List.mem_cons_self
  rw [hcircles] at hfirst
  exact List.not_mem_nil hfirst

theorem next (h : Accounted o t) : Accounted o (t.perform .next) where
  origin := h.origin
  enclosing := h.enclosing
  first := by
    refine Eq.trans ?_ h.first
    rw [perform, Gasket.circles_next]
    cases hcircles : t.gasket.circles with
    | nil => rw [h.frontier_eq_nil hcircles, List.flatMap_nil, List.append_nil]
    | cons c cs => rfl
  count := by
    rw [perform, Gasket.length_circles_next, h.count, List.sum_cons, Nat.add_assoc,
      Nat.add_comm t.answers.sum]
  generation := congrArg (· + 1) h.generation
  around gap hgap c hc := by
    obtain ⟨old, hold, new, hnew, haround⟩ := Gasket.mem_frontier_next.1 hgap
    rw [perform, Gasket.circles_next, List.mem_append]
    rcases (Gap.of_mem_around haround).2 c hc with rfl | hc
    · exact .inr (List.mem_flatMap.2 ⟨old, hold, hnew⟩)
    · exact .inl (h.around old hold c hc)
  latest n rest hanswers gap hgap := by
    obtain ⟨rfl, -⟩ := List.cons.inj hanswers
    have hlength : (t.gasket.next.circles).length - t.gasket.added = t.gasket.circles.length := by
      rw [Gasket.length_circles_next, Nat.add_sub_cancel]
    rw [perform, hlength, Gasket.circles_next, List.drop_left]
    exact Gasket.first_mem_of_mem_frontier_next hgap

/-- **Every operation keeps the account.** -/
theorem perform (h : Accounted o t) (op : GasketOp α) : Accounted o (t.perform op) := by
  cases op with
  | enclose radius => exact h.enclose radius
  | next => exact h.next

theorem performAll (h : Accounted o t) (ops : List (GasketOp α)) :
    Accounted o (ops.foldl Growth.perform t) := by
  induction ops generalizing t with
  | nil => exact h
  | cons op ops ih => exact ih (h.perform op)

end Accounted

/-- **A gasket keeps account of its circles.** Whatever it is seeded with and however often it is
filled, with coordinates and radii of any kind: a generation keeps the circles there were, answers
how many it has added, at most two for each open gap, and leaves three open gaps for each of them;
what the gasket holds is accounted for by what was done since it was last seeded; and to seed it
again leaves nothing of what it was. -/
theorem circles_accounted (o : Point α) (ops : List (GasketOp α)) :
    (grow o ops).gasket.Fills ∧ Accounted o (grow o ops) ∧
      ∀ radius, (grow o ops).gasket.enclose radius = .seeded o radius := by
  have haccount : Accounted o (grow o ops) := (Accounted.empty o).performAll ops
  refine ⟨Gasket.fills _, haccount, fun radius => ?_⟩
  rw [Gasket.enclose, haccount.origin]

end Growth

/-! ## Before the first seed -/

namespace Gasket

theorem iterate_next_empty (o : Point α) (n : ℕ) :
    next^[n] (empty o) = { (empty o : Gasket α) with generation := n } := by
  induction n with
  | zero => rfl
  | succ n ih =>
    rw [Function.iterate_succ_apply', ih]
    rfl

/-- **Before it is seeded a gasket counts its generations and does nothing else.** None of them
adds a circle or opens a gap, and the gasket can be told from a new one by their number alone; to
seed it forgets that as well. -/
theorem unseeded_counts (o : Point α) (n : ℕ) :
    (next^[n] (empty o)).added = 0 ∧
      next^[n] (empty o) = ⟨o, none, [], [], n⟩ ∧
      (next^[n] (empty o) = empty o ↔ n = 0) ∧
      ∀ r, (next^[n] (empty o)).enclose r = seeded o r := by
  rw [iterate_next_empty]
  refine ⟨rfl, rfl, ⟨fun h => ?_, fun h => ?_⟩, fun r => rfl⟩
  · exact congrArg generation h
  · rw [h]
    rfl

/-- A single generation is enough to tell a gasket from a new one. -/
theorem unseeded_changes :
    ¬∀ (o : Point Float) (n : ℕ), (∀ m < n, (next^[m] (empty o)).added = 0) ∧
      (next^[n] (empty o)).circles = (empty o).circles ∧
      (next^[n] (empty o)).enclosing = (empty o).enclosing ∧
      (next^[n] (empty o)).generation = (empty o).generation := by
  intro h
  exact absurd (h ⟨0, 0⟩ 1).2.2.2 Nat.one_ne_zero

end Gasket

end Easel
