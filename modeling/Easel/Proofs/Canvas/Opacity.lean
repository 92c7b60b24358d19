import Easel.Proofs.Canvas.Marks
import Easel.Proofs.Colour.Opacity

/-!
# Paint does not wear off

No call on a surface makes a pixel more transparent, and a pixel that a colour was laid over ends at
least as opaque as that colour. Both hold of single marks by `Colour.alpha_onto`, of every list of
marks by induction, and so of any calls.
-/

namespace Easel

namespace Image

/-- Every pixel of `j` is at least as opaque as the same pixel of `i`. -/
def Covered (i j : Image) : Prop :=
  ∀ x y c, i.pixel? x y = some c → ∃ c', j.pixel? x y = some c' ∧ c.alpha ≤ c'.alpha

/-- Nothing shines through any pixel. -/
def Opaque (i : Image) : Prop := ∀ x y c, i.pixel? x y = some c → c.alpha = 255

theorem Covered.refl (i : Image) : i.Covered i := fun _ _ c h => ⟨c, h, UInt8.le_refl _⟩

theorem Covered.trans {i j k : Image} (h : i.Covered j) (h' : j.Covered k) : i.Covered k := by
  intro x y c hc
  obtain ⟨c', hc', hle⟩ := h x y c hc
  obtain ⟨c'', hc'', hle'⟩ := h' x y c' hc'
  exact ⟨c'', hc'', UInt8.le_trans hle hle'⟩

theorem covered_blend (i : Image) (x y : Int) (c : Colour) : i.Covered (i.blend x y c) := by
  intro u v d hd
  rw [pixel?_blend, hd]
  split
  case isTrue => exact ⟨c.onto d, rfl, (Colour.alpha_onto c d).2⟩
  case isFalse => exact ⟨d, rfl, UInt8.le_refl _⟩

theorem covered_mark (i : Image) (marks : List Mark) : i.Covered (i.mark marks) := by
  induction marks generalizing i with
  | nil => exact .refl i
  | cons m marks ih => exact (covered_blend i m.x m.y m.colour).trans (ih _)

/-- A pixel ends at least as opaque as every colour that was laid over it. -/
theorem alpha_le_of_mem_marks {i : Image} {marks : List Mark} {m : Mark} (hm : m ∈ marks)
    {x y : Nat} (hx : m.x = x) (hy : m.y = y) {c : Colour}
    (hc : (i.mark marks).pixel? x y = some c) : m.colour.alpha ≤ c.alpha := by
  obtain ⟨before, after, rfl⟩ := List.append_of_mem hm
  obtain ⟨d, hd⟩ : ∃ d, (i.mark before).pixel? x y = some d :=
    ((sameSize_mark i _).trans (sameSize_mark i before).symm).exists_pixel? hc
  have hblend : ((i.mark before).blend m.x m.y m.colour).pixel? x y = some (m.colour.onto d) := by
    rw [pixel?_blend, if_pos ⟨hx, hy⟩, hd, Option.map_some]
  obtain ⟨c', hc', hle⟩ := covered_mark _ after x y _ hblend
  rw [mark_append, mark_cons] at hc
  cases hc.symm.trans hc'
  exact UInt8.le_trans (Colour.alpha_onto m.colour d).1 hle

theorem opaque_mark {i : Image} (h : i.Opaque) (marks : List Mark) : (i.mark marks).Opaque := by
  intro x y c hc
  obtain ⟨d, hd⟩ := (sameSize_mark i marks).exists_pixel? hc
  obtain ⟨c', hc', hle⟩ := covered_mark i marks x y d hd
  cases hc.symm.trans hc'
  rw [h x y d hd] at hle
  exact UInt8.le_antisymm (UInt8.le_iff_toNat_le.2 (Nat.le_of_lt_succ c.alpha.toNat_lt)) hle

theorem opaque_filled {c : Colour} (h : c.alpha = 255) (width height : Nat) :
    (filled width height c).Opaque := by
  intro x y d hd
  rw [pixel?, filled] at hd
  split at hd
  case isTrue =>
    rw [Array.getElem?_replicate] at hd
    split at hd <;> cases hd
    exact h
  case isFalse => cases hd

end Image

namespace Raster

variable {α : Type} [Analytic α]

theorem colour_of_mem_dabMarks {scale : Nat} {colour : Colour} {p : Position α} {m : Mark}
    (hm : m ∈ dabMarks scale colour p) : m.colour = colour := by
  simp only [dabMarks, List.mem_flatMap, List.mem_singleton] at hm
  obtain ⟨_, _, _, _, rfl⟩ := hm
  rfl

theorem colour_of_mem_strokeMarks {scale : Nat} {colour : Colour}
    {segments : List (Position α × Position α)} {i : Image} {m : Mark}
    (hm : m ∈ strokeMarks scale colour segments i) : m.colour = colour := by
  obtain ⟨segment, -, hm⟩ := List.mem_flatMap.1 hm
  simp only [lineMarks] at hm
  split at hm
  case isFalse => cases hm
  case isTrue =>
    split at hm
    · cases hm
    · obtain ⟨_, -, hm⟩ := List.mem_flatMap.1 hm
      exact colour_of_mem_dabMarks hm

theorem colour_of_mem_fillMarks {edges : List (Position α × Position α)} {colour : Colour}
    {i : Image} {m : Mark} (hm : m ∈ fillMarks edges colour i) : m.colour = colour := by
  simp only [fillMarks, rowMarks, List.mem_flatMap, List.mem_singleton] at hm
  obtain ⟨_, _, _, _, _, _, rfl⟩ := hm
  rfl

/-- The marks of calls have the colours of their paints. -/
theorem paint_of_mem_marksAll {r : Raster α} {calls : List (SurfaceCall α)} {m : Mark}
    (hm : m ∈ r.marksAll calls) : .stroke m.colour ∈ calls ∨ .fill m.colour ∈ calls := by
  induction calls generalizing r with
  | nil => cases hm
  | cons c calls ih =>
    rcases List.mem_append.1 hm with hm | hm
    · cases c with
      | stroke colour => simp [colour_of_mem_strokeMarks hm]
      | fill colour => simp [colour_of_mem_fillMarks hm]
      | _ => cases hm
    · exact (ih hm).imp (List.mem_cons_of_mem _) (List.mem_cons_of_mem _)

theorem opaque_create {width height scale : Nat} {background : Colour} {r : Raster α}
    (h : background.alpha = 255) (hr : create width height scale background = .ok r) :
    r.image.Opaque := by
  obtain ⟨-, -, rfl⟩ := create_eq_ok.1 hr
  exact Image.opaque_filled h _ _

/-- **Painting never makes a pixel more transparent.** After any calls every pixel is at least as
opaque as before, and at least as opaque as every colour that was laid over it, which are colours of
the strokes and fills among the calls. In particular a canvas with an opaque background stays
opaque. -/
theorem performAll_opacity (r : Raster α) (calls : List (SurfaceCall α)) :
    r.image.Covered (r.performAll calls).image ∧
      (r.performAll calls).image = r.image.mark (r.marksAll calls) ∧
      (∀ m ∈ r.marksAll calls, (.stroke m.colour ∈ calls ∨ .fill m.colour ∈ calls) ∧
        ∀ (x y : Nat) (c : Colour), m.x = x → m.y = y →
          (r.performAll calls).image.pixel? x y = some c → m.colour.alpha ≤ c.alpha) ∧
      (r.image.Opaque → (r.performAll calls).image.Opaque) ∧
      ∀ (width height scale : Nat) (background : Colour), background.alpha = 255 →
        create width height scale background = .ok r → (r.performAll calls).image.Opaque := by
  have himage := image_performAll r calls
  have hsolid : r.image.Opaque → (r.performAll calls).image.Opaque := by
    rw [himage]
    exact fun h => Image.opaque_mark h _
  refine ⟨?_, himage, fun m hm => ⟨paint_of_mem_marksAll hm, fun x y c hx hy hc => ?_⟩, hsolid,
    fun width height scale background h hr => hsolid (opaque_create h hr)⟩
  · rw [himage]
    exact Image.covered_mark _ _
  · rw [himage] at hc
    exact Image.alpha_le_of_mem_marks hm hx hy hc

/-- A translucent line. -/
def smear : List (SurfaceCall Float) :=
  [.beginPath, .moveTo 0 0.5, .lineTo 2 0.5, .stroke ⟨255, 0, 0, 128⟩]

theorem performAll_opacity_smear :
    ⟨1, 0, ⟨255, 0, 0, 128⟩⟩ ∈ (spotted ⟨0, 0, 0, 90⟩).marksAll smear ∧
      ∃ c, ((spotted ⟨0, 0, 0, 90⟩).performAll smear).image.pixel? 1 0 = some c ∧
        90 ≤ c.alpha ∧ 128 ≤ c.alpha := by
  obtain ⟨hcovered, -, hmarks, -⟩ := performAll_opacity (spotted ⟨0, 0, 0, 90⟩) smear
  have hmark : ⟨1, 0, ⟨255, 0, 0, 128⟩⟩ ∈ (spotted ⟨0, 0, 0, 90⟩).marksAll smear := by
    decide +kernel
  obtain ⟨c, hc, hle⟩ := hcovered 1 0 ⟨0, 0, 0, 90⟩ rfl
  exact ⟨hmark, c, hc, hle, (hmarks _ hmark).2 1 0 c rfl rfl hc⟩

end Raster

end Easel
