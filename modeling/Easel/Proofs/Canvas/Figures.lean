import Mathlib.Algebra.BigOperators.Group.List.Basic
import Mathlib.Data.Int.Notation
import Easel.Canvas.Picture
import Easel.Canvas.Raster
import Easel.Proofs.Geometry.Hexagons
import Easel.Proofs.Sketch.Objects

/-!
# Pictures are made of figures

The picture of an object is a sequence of figures. A figure starts a path of its own before it
paints, and one that shifts the origin saves the translation first and restores it in the end. So a
picture leaves nothing behind for the next one: `SurfaceCall.Nested` says so of saves and restores,
`Raster.SelfContained` of what is painted.
-/

namespace Easel

namespace SurfaceCall

variable {α : Type} {calls calls' : List (SurfaceCall α)}

/-- Whether the call changes the translation in force, or saves it. -/
def isTransform : SurfaceCall α → Bool
  | save | translate _ _ | restore => true
  | _ => false

/-- By how much the call changes the number of open saves. -/
def opening : SurfaceCall α → ℤ
  | save => 1
  | restore => -1
  | _ => 0

theorem opening_eq_zero {c : SurfaceCall α} (h : c.isTransform = false) : c.opening = 0 := by
  cases c <;> first | rfl | cases h

/-- How many more saves than restores there are among the calls. -/
def openSaves : List (SurfaceCall α) → ℤ
  | [] => 0
  | c :: calls => c.opening + openSaves calls

theorem openSaves_append (calls calls' : List (SurfaceCall α)) :
    openSaves (calls ++ calls') = openSaves calls + openSaves calls' := by
  induction calls with
  | nil => simp [openSaves]
  | cons c calls ih => rw [List.cons_append, openSaves, openSaves, ih, add_assoc]

theorem openSaves_eq_zero (h : ∀ c ∈ calls, c.opening = 0) : openSaves calls = 0 := by
  induction calls with
  | nil => rfl
  | cons c calls ih =>
    rw [openSaves, h c List.mem_cons_self, ih fun d hd => h d (List.mem_cons_of_mem c hd)]
    rfl

/-- Saves and restores are balanced, and never is more than one save open. -/
structure Nested (calls : List (SurfaceCall α)) : Prop where
  within : ∀ before, before <+: calls → 0 ≤ openSaves before ∧ openSaves before ≤ 1
  closed : openSaves calls = 0

namespace Nested

theorem of_still (h : ∀ c ∈ calls, c.opening = 0) : Nested calls where
  within before hb := by
    rw [openSaves_eq_zero fun c hc => h c (hb.subset hc)]
    omega
  closed := openSaves_eq_zero h

/-- One balanced sequence after another is balanced. -/
theorem append (h : Nested calls) (h' : Nested calls') : Nested (calls ++ calls') where
  within before hb := by
    rcases List.prefix_or_prefix_of_prefix hb (List.prefix_append calls calls') with hle | ⟨t, rfl⟩
    · exact h.within before hle
    · rw [openSaves_append, h.closed, zero_add]
      exact h'.within t ((List.prefix_append_right_inj calls).1 hb)
  closed := by rw [openSaves_append, h.closed, h'.closed, add_zero]

/-- What neither saves nor restores may stand between a save and its restore. -/
theorem enclose (h : ∀ c ∈ calls, c.opening = 0) : Nested (save :: (calls ++ [restore])) where
  within before hb := by
    rcases List.prefix_cons_iff.1 hb with rfl | ⟨inner, rfl, hinner⟩
    · simp [openSaves]
    · rcases List.prefix_concat_iff.1 hinner with rfl | hinner
      · simp [openSaves, openSaves_append, openSaves_eq_zero h, opening]
      · simp [openSaves, openSaves_eq_zero fun c hc => h c (hinner.subset hc), opening]
  closed := by simp [openSaves, openSaves_append, openSaves_eq_zero h, opening]

end Nested

/-- Every paint among the calls comes after the start of a path. -/
def PathFirst (calls : List (SurfaceCall α)) : Prop :=
  ∀ (before : List (SurfaceCall α)) (paint : SurfaceCall α) (after : List (SurfaceCall α)),
    calls = before ++ paint :: after → paint.isPaint = true → beginPath ∈ before

/-- Only calls that paint nothing may stand before the start of the first path. -/
theorem pathFirst_of_prologue (prologue rest : List (SurfaceCall α))
    (h : ∀ c ∈ prologue, c.isPaint = false) :
    PathFirst (prologue ++ beginPath :: rest) := by
  intro before paint after hsplit hpaint
  rcases List.append_eq_append_iff.1 hsplit with ⟨t, rfl, ht⟩ | ⟨t, rfl, ht⟩
  · cases t with
    | nil =>
      cases ht
      cases hpaint
    | cons c t =>
      cases ht
      simp
  · cases t with
    | nil =>
      cases ht
      cases hpaint
    | cons c t =>
      cases ht
      exact absurd hpaint (by simp [h paint (by simp)])

theorem PathFirst.append (h : PathFirst calls) (h' : PathFirst calls') :
    PathFirst (calls ++ calls') := by
  intro before paint after hsplit hpaint
  rcases List.append_eq_append_iff.1 hsplit with ⟨t, rfl, ht⟩ | ⟨t, rfl, ht⟩
  · exact List.mem_append_right _ (h' t paint after ht hpaint)
  · cases t with
    | nil =>
      have := h' [] paint after ht.symm hpaint
      cases this
    | cons c t =>
      cases ht
      exact h before paint t rfl hpaint

end SurfaceCall

/-! ## What a raster makes of it -/

namespace Raster

variable {α : Type} [Analytic α] {calls calls' : List (SurfaceCall α)}

theorem performAll_append (r : Raster α) (calls calls' : List (SurfaceCall α)) :
    r.performAll (calls ++ calls') = (r.performAll calls).performAll calls' := List.foldl_append

theorem performAll_singleton (r : Raster α) (c : SurfaceCall α) :
    r.performAll [c] = r.perform c := rfl

/-- The calls leave the translation and the saved ones alone, and nothing that they do depends on
the path before them. -/
structure SelfContained (calls : List (SurfaceCall α)) : Prop where
  offset : ∀ r : Raster α, (r.performAll calls).offset = r.offset
  saved : ∀ r : Raster α, (r.performAll calls).saved = r.saved
  path : ∀ (r : Raster α) (path : Path α), ∃ path' : Path α,
    { r with path }.performAll calls = { r.performAll calls with path := path' }

namespace SelfContained

theorem nil : SelfContained ([] : List (SurfaceCall α)) :=
  ⟨fun _ => rfl, fun _ => rfl, fun _ path => ⟨path, rfl⟩⟩

theorem append (h : SelfContained calls) (h' : SelfContained calls') :
    SelfContained (calls ++ calls') where
  offset r := by rw [performAll_append, h'.offset, h.offset]
  saved r := by rw [performAll_append, h'.saved, h.saved]
  path r path := by
    obtain ⟨between, hbetween⟩ := h.path r path
    rw [performAll_append, performAll_append, hbetween]
    exact h'.path (r.performAll calls) between

end SelfContained

/-- Calls that are not about translations leave them alone. -/
theorem performAll_still (h : ∀ c ∈ calls, c.isTransform = false) (r : Raster α) :
    (r.performAll calls).offset = r.offset ∧ (r.performAll calls).saved = r.saved := by
  induction calls generalizing r with
  | nil => exact ⟨rfl, rfl⟩
  | cons c calls ih =>
    obtain ⟨hoffset, hsaved⟩ := ih (fun d hd => h d (List.mem_cons_of_mem c hd)) (r.perform c)
    have hc := h c List.mem_cons_self
    have hstep : (r.perform c).offset = r.offset ∧ (r.perform c).saved = r.saved := by
      cases c <;> first | exact ⟨rfl, rfl⟩ | cases hc
    exact ⟨hoffset.trans hstep.1, hsaved.trans hstep.2⟩

theorem perform_restore {r : Raster α} {offset : Position α} {saved : List (Position α)}
    (h : r.saved = offset :: saved) : r.perform .restore = { r with offset, saved } := by
  rw [perform, h]

theorem perform_restore_nil {r : Raster α} (h : r.saved = []) : r.perform .restore = r := by
  rw [perform, h]

end Raster

/-! ## Figures -/

namespace Picture

open SurfaceCall (save translate restore beginPath moveTo lineTo closePath stroke)

variable {α : Type}

/-- The calls of one figure: a path of its own with its paints, perhaps around an origin of its
own. -/
inductive Figure : List (SurfaceCall α) → Prop where
  | plain {body : List (SurfaceCall α)} (still : ∀ c ∈ body, c.isTransform = false) :
      Figure (beginPath :: body)
  | shifted (dx dy : α) {body : List (SurfaceCall α)}
      (still : ∀ c ∈ body, c.isTransform = false) :
      Figure (save :: translate dx dy :: beginPath :: body ++ [restore])

/-- The calls of any number of figures, one after the other. -/
inductive Drawing : List (SurfaceCall α) → Prop where
  | blank : Drawing []
  | figure {calls calls' : List (SurfaceCall α)} (first : Figure calls) (rest : Drawing calls') :
      Drawing (calls ++ calls')

namespace Figure

variable {calls : List (SurfaceCall α)}

theorem nested (h : Figure calls) : SurfaceCall.Nested calls := by
  cases h with
  | plain still =>
    refine .of_still fun c hc => ?_
    rcases List.mem_cons.1 hc with rfl | hc
    · rfl
    · exact SurfaceCall.opening_eq_zero (still c hc)
  | shifted dx dy still =>
    refine .enclose fun c hc => ?_
    rcases List.mem_cons.1 hc with rfl | hc
    · rfl
    rcases List.mem_cons.1 hc with rfl | hc
    · rfl
    · exact SurfaceCall.opening_eq_zero (still c hc)

theorem pathFirst (h : Figure calls) : SurfaceCall.PathFirst calls := by
  cases h with
  | @plain body still => exact SurfaceCall.pathFirst_of_prologue [] body (List.forall_mem_nil _)
  | @shifted dx dy body still =>
    refine SurfaceCall.pathFirst_of_prologue [save, translate dx dy] (body ++ [restore]) ?_
    simp [SurfaceCall.isPaint]

/-- Where a figure starts its path, it forgets the one before. -/
theorem selfContained [Analytic α] (h : Figure calls) : Raster.SelfContained calls := by
  cases h with
  | @plain body still =>
    exact ⟨fun r => (Raster.performAll_still still (r.perform beginPath)).1,
      fun r => (Raster.performAll_still still (r.perform beginPath)).2, fun r path => ⟨_, rfl⟩⟩
  | @shifted dx dy body still =>
    let start (r : Raster α) : Raster α :=
      ((r.perform save).perform (translate dx dy)).perform beginPath
    have hsaved (r : Raster α) : ((start r).performAll body).saved = r.offset :: r.saved :=
      (Raster.performAll_still still (start r)).2
    have hrestore (r : Raster α) :
        r.performAll (save :: translate dx dy :: beginPath :: body ++ [restore]) =
          { (start r).performAll body with offset := r.offset, saved := r.saved } := by
      rw [Raster.performAll_append]
      exact Raster.perform_restore (hsaved r)
    refine ⟨fun r => by rw [hrestore], fun r => by rw [hrestore],
      fun r path => ⟨((start r).performAll body).path, ?_⟩⟩
    rw [hrestore, hrestore]
    rfl

end Figure

namespace Drawing

variable {calls calls' : List (SurfaceCall α)}

theorem single (h : Figure calls) : Drawing calls := by
  rw [← List.append_nil calls]
  exact .figure h .blank

theorem append (h : Drawing calls) (h' : Drawing calls') : Drawing (calls ++ calls') := by
  induction h with
  | blank => exact h'
  | figure first _ ih =>
    rw [List.append_assoc]
    exact .figure first ih

theorem flatMap {β : Type} {f : β → List (SurfaceCall α)} {l : List β}
    (h : ∀ b ∈ l, Drawing (f b)) : Drawing (l.flatMap f) := by
  induction l with
  | nil => exact .blank
  | cons b l ih =>
    rw [List.flatMap_cons]
    exact (h b List.mem_cons_self).append (ih fun d hd => h d (List.mem_cons_of_mem b hd))

theorem nested (h : Drawing calls) : SurfaceCall.Nested calls := by
  induction h with
  | blank => exact .of_still (List.forall_mem_nil _)
  | figure first _ ih => exact first.nested.append ih

theorem pathFirst (h : Drawing calls) : SurfaceCall.PathFirst calls := by
  induction h with
  | blank => intro before paint after hsplit; simp at hsplit
  | figure first _ ih => exact first.pathFirst.append ih

theorem selfContained [Analytic α] (h : Drawing calls) : Raster.SelfContained calls := by
  induction h with
  | blank => exact .nil
  | figure first _ ih => exact first.selfContained.append ih

end Drawing

/-! ## Pictures of objects -/

theorem drawing_fractal (colour : Colour) (s : Sierpinski α) : Drawing (fractal colour s) := by
  refine .append (.single (.plain (by simp [SurfaceCall.isTransform]))) (.flatMap fun t _ => ?_)
  exact .single (.plain (by simp [SurfaceCall.isTransform]))

variable [Analytic α]

theorem drawing_circle (colour : Colour) (c : Circle α) : Drawing (circle colour c) :=
  .single (.plain (by simp [SurfaceCall.isTransform]))

theorem drawing_gasket (colour : Colour) (g : Gasket α) : Drawing (gasket colour g) :=
  .flatMap fun c _ => drawing_circle colour c

theorem drawing_tiling (colour : Colour) (h : Hexagons α) : Drawing (tiling colour h) := by
  let sides : List (SurfaceCall α) :=
    (h.cellCorners.head?.map fun p => moveTo p.x p.y).toList ++
      h.cellCorners.tail.map (fun p => lineTo p.x p.y) ++ [closePath, stroke colour]
  have hstill : ∀ c ∈ sides, c.isTransform = false := by
    intro c hc
    simp only [sides, List.mem_append, Option.mem_toList, Option.map_eq_some_iff, List.mem_map,
      List.mem_cons, List.not_mem_nil, or_false] at hc
    rcases hc with (⟨_, _, rfl⟩ | ⟨_, _, rfl⟩) | rfl | rfl <;> rfl
  have hcell : ∀ p : Point α, Figure ([save, translate p.x p.y] ++
      cell colour h.cellCorners ++ [restore]) := by
    intro p
    have hsplit : [save, translate p.x p.y] ++ cell colour h.cellCorners ++ [restore] =
        save :: translate p.x p.y :: beginPath :: sides ++ [restore] := by
      simp [cell, sides]
    rw [hsplit]
    exact .shifted p.x p.y hstill
  rw [tiling]
  exact .flatMap fun p _ => .single (hcell p)

end Picture

theorem Object.drawing_picture (colour : Colour) (o : Object) :
    Picture.Drawing (o.picture colour) := by
  cases o with
  | apollonian g => exact Picture.drawing_gasket colour g
  | sierpinski s => exact Picture.drawing_fractal colour s
  | hexagons h => exact Picture.drawing_tiling colour h
  | point p => exact .single (.plain (by simp [SurfaceCall.isTransform]))
  | circle c => exact Picture.drawing_circle colour c.circle

theorem Picture.drawing_ofShown (shown : List (Object × Colour)) : Drawing (ofShown shown) :=
  .flatMap fun s _ => s.1.drawing_picture s.2

/-! ## How many paints there are -/

namespace SurfaceCall

variable {α β : Type}

theorem paints_append (calls calls' : List (SurfaceCall α)) :
    paints (calls ++ calls') = paints calls + paints calls' := List.countP_append

theorem paints_flatMap {f : β → List (SurfaceCall α)} {g : β → ℕ} {l : List β}
    (h : ∀ b ∈ l, paints (f b) = g b) : paints (l.flatMap f) = (l.map g).sum := by
  rw [paints, List.countP_flatMap]
  exact congrArg List.sum (List.map_congr_left h)

theorem paints_flatMap_const {f : β → List (SurfaceCall α)} {n : ℕ} (h : ∀ b, paints (f b) = n)
    (l : List β) : paints (l.flatMap f) = l.length * n := by
  rw [paints_flatMap fun b _ => h b, List.map_const', List.sum_replicate_nat]

end SurfaceCall

namespace Object

/-- How many paints the picture of an object takes: one for each circle or cell; in a fractal one
for the seed and two for every other triangle. -/
def paints : Object → ℕ
  | apollonian g => g.circles.length
  | sierpinski s => 2 * s.triangles.length - 1
  | hexagons h => Hexagons.cellCount h.rings
  | point _ => 1
  | circle _ => 1

/-- A fractal has its seed at least among its triangles. -/
def Begun : Object → Prop
  | sierpinski s => s.triangles ≠ []
  | _ => True

theorem Made.begun {o : Object} (h : o.Made) : o.Begun := by
  induction h with
  | fresh fresh =>
    cases fresh with
    | fractal seed => exact List.cons_ne_nil _ _
    | _ => trivial
  | grown _ grows ih =>
    cases grows with
    | divided s => exact List.append_ne_nil_of_left_ne_nil ih _
    | _ => trivial

theorem paints_picture {o : Object} (h : o.Begun) (colour : Colour) :
    SurfaceCall.paints (o.picture colour) = o.paints := by
  cases o with
  | apollonian g =>
    have hcircle : ∀ c : Circle Float, SurfaceCall.paints (Picture.circle colour c) = 1 :=
      fun _ => rfl
    rw [picture, Picture.gasket, SurfaceCall.paints_flatMap_const hcircle, Nat.mul_one, paints]
  | sierpinski s =>
    have hinner : ∀ t : Triangle Float, SurfaceCall.paints (Picture.trianglePath t ++
        [SurfaceCall.fill (colour.lighten Picture.fillLightening),
          SurfaceCall.stroke colour]) = 2 := fun _ => rfl
    have hlength : s.triangles.tail.length + 1 = s.triangles.length :=
      List.length_tail_add_one _ (List.length_pos_of_ne_nil h)
    have hseed : SurfaceCall.paints (Picture.trianglePath s.seed ++
        [SurfaceCall.stroke colour]) = 1 := rfl
    rw [picture, Picture.fractal, SurfaceCall.paints_append, hseed,
      SurfaceCall.paints_flatMap_const hinner, paints, ← hlength]
    omega
  | hexagons tiling =>
    have hcell : ∀ p : Point Float, SurfaceCall.paints ([SurfaceCall.save,
        SurfaceCall.translate p.x p.y] ++ Picture.cell colour tiling.cellCorners ++
          [SurfaceCall.restore]) = 1 := fun _ => rfl
    rw [picture, Picture.tiling, SurfaceCall.paints_flatMap_const hcell, Hexagons.cellCenters,
      List.length_map, Hexagons.length_cells, Nat.mul_one, paints]
  | point p => rfl
  | circle c => rfl

end Object

/-- **Objects are painted apart.** Whatever the state of a raster, the picture of an object leaves
the translation and the saved ones as they were, and the image does not depend on the path that was
there before.

The calls that paint a canvas are the pictures of its objects, one after the other. Their saves and
restores are balanced, with one open at most; every paint comes after the start of a path for the
same object; and there are as many paints as the objects take together. This supposes only that
every fractal has its seed among its triangles, as in everything that a sketch shows. -/
theorem Picture.painted_apart :
    (∀ (o : Object) (colour : Colour) (r : Raster Float),
      (r.performAll (o.picture colour)).offset = r.offset ∧
      (r.performAll (o.picture colour)).saved = r.saved ∧
      ∀ path : Path Float, ({ r with path }.performAll (o.picture colour)).image =
        (r.performAll (o.picture colour)).image) ∧
    (∀ shown : List (Object × Colour),
      SurfaceCall.Nested (ofShown shown) ∧
      ofShown shown = shown.flatMap (fun s => s.1.picture s.2) ∧
      (∀ s ∈ shown, SurfaceCall.PathFirst (s.1.picture s.2)) ∧
      ((∀ s ∈ shown, s.1.Begun) →
        SurfaceCall.paints (ofShown shown) = (shown.map fun s => s.1.paints).sum)) ∧
    ∀ (sketch : Sketch) (snapshots : Snapshots) (run : Run), sketch.run snapshots = .ok run →
      (∀ s ∈ run.shown, s.1.Begun) ∧
      ∀ frame ∈ run.snapshots, ∀ s ∈ frame.shown, s.1.Begun := by
  refine ⟨fun o colour r => ?_, fun shown => ?_, fun sketch snapshots run hrun => ?_⟩
  · have hapart := (o.drawing_picture colour).selfContained
    refine ⟨hapart.offset r, hapart.saved r, fun path => ?_⟩
    obtain ⟨path', hpath⟩ := hapart.path r path
    rw [hpath]
  · refine ⟨(drawing_ofShown shown).nested, rfl,
      fun s _ => (s.1.drawing_picture s.2).pathFirst, fun hbegun => ?_⟩
    exact SurfaceCall.paints_flatMap fun s hs => s.1.paints_picture (hbegun s hs) s.2
  · have hheap := Sketch.genuine_of_run hrun
    refine ⟨fun s hs => (hheap.shown _ s hs).begun, fun frame hframe s hs => ?_⟩
    obtain ⟨k, -, rfl⟩ := Array.mem_map.1 hframe
    exact (hheap.shown _ s hs).begun

/-- One object of every class. -/
def Picture.medley : List (Object × Colour) := [
  (.apollonian (.seeded ⟨0, 0⟩ 1), .black),
  (.sierpinski (Sierpinski.ofSeed ⟨⟨0, 0⟩, ⟨4, 0⟩, ⟨0, 3⟩⟩).next, .white),
  (.hexagons (.ofRings ⟨0, 0⟩ 1 1), .black),
  (.point ⟨⟨0, 0⟩, none⟩, .white),
  (.circle ⟨.ofRadius 0 0 1, none⟩, .black)]

theorem Picture.painted_apart_medley :
    (∀ s ∈ medley, s.1.Begun) ∧ SurfaceCall.paints (ofShown medley) = 3 + 3 + 7 + 1 + 1 := by
  have hbegun : ∀ s ∈ medley, s.1.Begun := by
    simp [medley, Object.Begun, Sierpinski.next, Sierpinski.ofSeed]
  obtain ⟨-, -, -, hpaints⟩ := painted_apart.2.1 medley
  exact ⟨hbegun, hpaints hbegun⟩

end Easel
