import Mathlib
import Easel.Proofs.Canvas.Figures
import Easel.Proofs.Number.Exact

/-!
# Translations can be worked out beforehand

A translation holds from the call that makes it until the save before it is restored. `Scopes` keeps
the translations that hold, one scope for each open save, and their sum is what shifts the points of
a path. So saves, translations and restores are not needed: `SurfaceCall.flattened` leaves them out
and shifts the points instead. A raster keeps sums where scopes keep summands
(`Raster.Follows`); in exact numbers both come to the same.
-/

namespace Easel

open scoped Exact

namespace SurfaceCall

/-- The translations that hold: those since the last open save, and those of the scope around each
open save, the last save first. -/
structure Scopes where
  inner : List (Position ℝ) := []
  outer : List (List (Position ℝ)) := []

namespace Scopes

/-- What a call makes of the scopes. Where no save is open, a restore does nothing. -/
def after (s : Scopes) : SurfaceCall ℝ → Scopes
  | .save => ⟨[], s.inner :: s.outer⟩
  | .translate dx dy => ⟨(dx, dy) :: s.inner, s.outer⟩
  | .restore => match s.outer with
    | inner :: outer => ⟨inner, outer⟩
    | [] => s
  | _ => s

/-- By how much points are shifted. -/
noncomputable def shift (s : Scopes) : Position ℝ := s.inner.sum + s.outer.flatten.sum

/-- By how much points were shifted at each open save. -/
noncomputable def saved : List (List (Position ℝ)) → List (Position ℝ)
  | [] => []
  | inner :: outer => shift ⟨inner, outer⟩ :: saved outer

end Scopes

/-- The call with its points shifted; nothing is left of one that is about translations. -/
noncomputable def shifted (d : Position ℝ) : SurfaceCall ℝ → List (SurfaceCall ℝ)
  | .moveTo x y => [.moveTo (x + d.1) (y + d.2)]
  | .lineTo x y => [.lineTo (x + d.1) (y + d.2)]
  | .arc cx cy radius start stop => [.arc (cx + d.1) (cy + d.2) radius start stop]
  | .save | .translate _ _ | .restore => []
  | c => [c]

/-- The calls with every point shifted by the translations that hold where it is given. -/
noncomputable def flattened (s : Scopes) : List (SurfaceCall ℝ) → List (SurfaceCall ℝ)
  | [] => []
  | c :: calls => c.shifted s.shift ++ flattened (s.after c) calls

theorem isTransform_of_mem_shifted {d : Position ℝ} {c c' : SurfaceCall ℝ} (h : c' ∈ c.shifted d) :
    c'.isTransform = false := by
  cases c <;> simp only [shifted, List.mem_singleton, List.not_mem_nil] at h <;> rw [h] <;> rfl

theorem isTransform_of_mem_flattened {s : Scopes} {calls : List (SurfaceCall ℝ)}
    {c : SurfaceCall ℝ} (h : c ∈ flattened s calls) : c.isTransform = false := by
  induction calls generalizing s with
  | nil => cases h
  | cons first calls ih =>
    rcases List.mem_append.1 h with h | h
    · exact isTransform_of_mem_shifted h
    · exact ih h

end SurfaceCall

namespace Raster

open SurfaceCall (Scopes)

/-- The raster without its translations. -/
noncomputable def still (r : Raster ℝ) : Raster ℝ := { r with offset := 0, saved := [] }

/-- The translation in force and the saved ones are those of the scopes. -/
structure Follows (r : Raster ℝ) (s : Scopes) : Prop where
  offset : r.offset = s.shift
  saved : r.saved = Scopes.saved s.outer

variable {r : Raster ℝ} {s : Scopes}

/-- A raster goes on following the scopes. -/
theorem Follows.perform (h : r.Follows s) (c : SurfaceCall ℝ) :
    (r.perform c).Follows (s.after c) := by
  obtain ⟨hoffset, hsaved⟩ := h
  cases c with
  | save =>
    refine ⟨?_, ?_⟩
    · calc
        r.offset = s.inner.sum + s.outer.flatten.sum := hoffset
        _ = Scopes.shift ⟨[], s.inner :: s.outer⟩ := by
          simp [Scopes.shift]
    · calc
        r.offset :: r.saved = s.shift :: Scopes.saved s.outer := by rw [hoffset, hsaved]
        _ = Scopes.saved (s.inner :: s.outer) := rfl
  | translate dx dy =>
    refine ⟨?_, hsaved⟩
    calc
      r.offset + (dx, dy) = s.shift + (dx, dy) := by rw [hoffset]
      _ = Scopes.shift ⟨(dx, dy) :: s.inner, s.outer⟩ := by
        simp only [Scopes.shift, List.sum_cons]
        abel
  | restore =>
    obtain ⟨inner, outer⟩ := s
    cases outer with
    | nil =>
      rw [perform_restore_nil hsaved]
      exact ⟨hoffset, hsaved⟩
    | cons scope outer =>
      rw [perform_restore hsaved]
      exact ⟨rfl, rfl⟩
  | _ => exact ⟨hoffset, hsaved⟩

theorem Follows.performAll (h : r.Follows s) (calls : List (SurfaceCall ℝ)) :
    (r.performAll calls).Follows (calls.foldl Scopes.after s) := by
  induction calls generalizing r s with
  | nil => exact h
  | cons c calls ih => exact ih (h.perform c)

theorem device_still (r : Raster ℝ) (x y : ℝ) :
    r.still.device (x + r.offset.1) (y + r.offset.2) = r.device x y := by
  simp only [device, still, Prod.fst_zero, Prod.snd_zero, add_zero]

theorem arcPoints_still (r : Raster ℝ) (cx cy radius start stop : ℝ) :
    r.still.arcPoints (cx + r.offset.1) (cy + r.offset.2) radius start stop =
      r.arcPoints cx cy radius start stop := by
  simp only [arcPoints, add_right_comm _ _ (radius * _), device_still]
  rfl

/-- What a call does apart from translations, its shifted form does without them. -/
theorem performAll_shifted (r : Raster ℝ) (c : SurfaceCall ℝ) :
    r.still.performAll (c.shifted r.offset) = (r.perform c).still := by
  cases c with
  | moveTo x y | lineTo x y =>
    rw [SurfaceCall.shifted, performAll_singleton, perform, device_still]
    rfl
  | arc cx cy radius start stop =>
    rw [SurfaceCall.shifted, performAll_singleton, perform, arcPoints_still]
    rfl
  | restore =>
    cases hsaved : r.saved with
    | nil =>
      rw [perform_restore_nil hsaved]
      rfl
    | cons offset saved =>
      rw [perform_restore hsaved]
      rfl
  | _ => rfl

/-- A raster that follows the scopes does without translations what the flattened calls do. -/
theorem Follows.still_performAll (h : r.Follows s) (calls : List (SurfaceCall ℝ)) :
    r.still.performAll (SurfaceCall.flattened s calls) = (r.performAll calls).still := by
  induction calls generalizing r s with
  | nil => rfl
  | cons c calls ih =>
    calc
      _ = (r.still.performAll (c.shifted r.offset)).performAll
            (SurfaceCall.flattened (s.after c) calls) := by
        rw [SurfaceCall.flattened, performAll_append, h.offset]
      _ = (r.perform c).still.performAll (SurfaceCall.flattened (s.after c) calls) := by
        rw [performAll_shifted]
      _ = ((r.perform c).performAll calls).still := ih (h.perform c)

/-- A canvas is created without translations. -/
theorem translations_of_create {width height scale : ℕ} {background : Colour}
    (h : create width height scale background = .ok r) : r.offset = 0 ∧ r.saved = [] := by
  obtain ⟨-, -, rfl⟩ := create_eq_ok.1 h
  have hzero := (Exact.literal_eq 0).trans Nat.cast_zero
  exact ⟨Prod.ext hzero hzero, rfl⟩

/-- **Translations can be worked out beforehand.** In exact numbers any calls on a new canvas, with
saves, translations and restores in whatever order, leave the image that the flattened calls leave.
Among these there are no saves, translations and restores: each call that gives points gives them
shifted by the translations that hold at that call, and all other calls are as they were. What holds
after some calls is the translation that is then in force. -/
theorem performAll_flattened {width height scale : ℕ} {background : Colour} {r : Raster ℝ}
    (h : create width height scale background = .ok r) (calls : List (SurfaceCall ℝ)) :
    (r.performAll (SurfaceCall.flattened {} calls)).image = (r.performAll calls).image ∧
      (∀ c ∈ SurfaceCall.flattened {} calls, c.isTransform = false) ∧
      (r.performAll calls).offset = (calls.foldl Scopes.after {}).shift := by
  obtain ⟨hoffset, hsaved⟩ := translations_of_create h
  have hstill : r.still = r := by rw [still, ← hoffset, ← hsaved]
  have hfollows : r.Follows {} := ⟨by rw [hoffset, Scopes.shift]; simp, hsaved⟩
  refine ⟨?_, fun c hc => SurfaceCall.isTransform_of_mem_flattened hc,
    (hfollows.performAll calls).offset⟩
  calc
    _ = (r.still.performAll (SurfaceCall.flattened {} calls)).image := by rw [hstill]
    _ = (r.performAll calls).still.image := by rw [hfollows.still_performAll]
    _ = (r.performAll calls).image := rfl

/-- A path on which the translation changes, with a restore too many before it. -/
def stray : List (SurfaceCall ℝ) :=
  [.restore, .translate 1 0, .beginPath, .moveTo 0 0, .save, .translate 0 1, .lineTo 1 0, .restore,
    .lineTo 1 1, .closePath, .fill .black]

theorem performAll_flattened_stray :
    ∃ r : Raster ℝ, create 4 4 1 .white = .ok r ∧
      SurfaceCall.flattened {} stray =
        [.beginPath, .moveTo 1 0, .lineTo 2 1, .lineTo 2 1, .closePath, .fill .black] ∧
      (r.performAll (SurfaceCall.flattened {} stray)).image = (r.performAll stray).image ∧
      .lineTo 2 1 ∈ SurfaceCall.flattened {} stray ∧
      (.lineTo 2 1 : SurfaceCall ℝ).isTransform = false := by
  have hflattened : SurfaceCall.flattened {} stray =
      [.beginPath, .moveTo 1 0, .lineTo 2 1, .lineTo 2 1, .closePath, .fill .black] := by
    norm_num [stray, SurfaceCall.flattened, SurfaceCall.shifted, Scopes.after, Scopes.shift]
  have hmem : .lineTo 2 1 ∈ SurfaceCall.flattened {} stray := by
    rw [hflattened]
    simp
  obtain ⟨r, hcreate⟩ : ∃ r : Raster ℝ, create 4 4 1 .white = .ok r :=
    ⟨_, create_eq_ok.2 ⟨by decide, by decide, rfl⟩⟩
  obtain ⟨himage, hstill, -⟩ := performAll_flattened hcreate stray
  exact ⟨r, hcreate, hflattened, himage, hmem, hstill _ hmem⟩

end Raster

end Easel
