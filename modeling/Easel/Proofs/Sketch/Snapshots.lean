import Easel.Proofs.Sketch.Course
import Easel.Sketch.Rasterise

/-!
# Snapshots keep up with the canvas

A call that changes anything on the canvas asks for a frame, and one that does not changes nothing
that can be seen. So at every moment the last snapshot shows the canvas as it is: `Run.Current` is
that invariant.
-/

namespace Easel

namespace Run

variable {index : Nat} {name : String} {args : List Value} {r r' : Run} {answer : Option Value}
  {log : List Call}

/-- Where no snapshot is added, those that there are show what they showed. -/
theorem Precedes.snapshots_eq (h : Precedes r r') (hkept : r'.kept = r.kept) :
    r'.snapshots = r.snapshots := by
  refine (Array.ext' (h.snapshots.eq_of_length ?_)).symm
  simp only [Run.snapshots, hkept, Array.toList_map, List.length_map]

/-- A snapshot stays in its place, and shows what it showed. -/
theorem Precedes.getElem?_snapshots (h : Precedes r r') {k : Nat} {frame : Frame}
    (hk : r.snapshots[k]? = some frame) : r'.snapshots[k]? = some frame := by
  rw [← Array.getElem?_toList] at hk ⊢
  obtain ⟨hlt, rfl⟩ := List.getElem?_eq_some_iff.1 hk
  exact List.prefix_iff_getElem?.1 h.snapshots k hlt

/-- A frame that is due gets a snapshot of what is on the canvas. -/
theorem Neat.takeFrame_keep (h : r.Neat) (index : Nat)
    (hpending : r.machine.session.redrawPending = true) :
    (Run.takeFrame .keep index r).frames = r.frames + 1 ∧
      (Run.takeFrame .keep index r).snapshots =
        r.snapshots.push ⟨r.frames, index, (Run.takeFrame .keep index r).shown⟩ := by
  refine ⟨by rw [frames_takeFrame, if_pos hpending], Array.ext' ?_⟩
  rw [h.snapshots_takeFrame, if_pos hpending, Array.toList_push, h.shown_takeFrame]

/-- **Nothing that can be seen changes without a frame**: a call changes neither the canvas nor
anything on it, or there is a snapshot of what it has made of the canvas. -/
theorem Tidy.snapshots_called (h : r.Tidy) (hargs : ∀ v ∈ args, r.Holds v)
    (hc : Called .keep index name args r answer r') :
    (r'.frames = r.frames ∧ r'.snapshots = r.snapshots ∧ r'.shown = r.shown ∧
      r'.machine.session.canvas = r.machine.session.canvas) ∨
    (r'.frames = r.frames + 1 ∧
      r'.snapshots = r.snapshots.push ⟨r.frames, index, r'.shown⟩) := by
  cases hc with
  | quiet os _ _ _ =>
    obtain ⟨-, hprecedes, -⟩ := h.made os
    refine .inl ⟨rfl, hprecedes.snapshots_eq rfl, ?_, rfl⟩
    exact Heap.shown_congr fun s hs => Heap.get?_allocAll_of_lt _ _ (h.canvas s hs).1
  | draw _ _ hq _ =>
    obtain ⟨hneat, hprecedes⟩ := h.drawn (owns_receiver hargs hq) (Deed.stroke args)
    rw [← hprecedes.snapshots_eq rfl]
    exact .inr (hneat.takeFrame_keep index rfl)
  | grow o _ _ hq _ _ =>
    obtain ⟨hneat, hprecedes⟩ := h.grown (owns_receiver hargs hq) o
    rw [← hprecedes.snapshots_eq rfl]
    exact .inr (hneat.takeFrame_keep index rfl)

/-- There is a snapshot of every frame, the last of them shows what is on the canvas, and there is
nothing on the canvas before the first. -/
structure Current (r : Run) : Prop where
  size : r.snapshots.size = r.frames
  last : ∀ frame, r.snapshots.back? = some frame → frame.shown = r.shown
  blank : r.frames = 0 → r.machine.session.canvas = #[]

theorem Current.fresh : Current {} where
  size := by simp [Run.snapshots]
  last := by simp [Run.snapshots]
  blank _ := rfl

theorem Current.called (h : r.Current) (hr : r.Tidy) (hargs : ∀ v ∈ args, r.Holds v)
    (hc : Called .keep index name args r answer r') : r'.Current := by
  rcases hr.snapshots_called hargs hc with
    ⟨hframes, hsnapshots, hshown, hcanvas⟩ | ⟨hframes, hsnapshots⟩
  · refine ⟨?_, fun frame hframe => ?_, fun hzero => ?_⟩
    · rw [hsnapshots, hframes, h.size]
    · rw [hshown]
      exact h.last frame (hsnapshots ▸ hframe)
    · rw [hcanvas]
      exact h.blank (hframes ▸ hzero)
  · refine ⟨?_, fun frame hframe => ?_, fun hzero => ?_⟩
    · rw [hsnapshots, hframes, Array.size_push, h.size]
    · rw [hsnapshots, Array.back?_push] at hframe
      cases hframe
      rfl
    · omega

theorem Course.current (h : Course .keep r log r') (hr : r.Tidy) (hcurrent : r.Current) :
    r'.Current :=
  h.induct (P := fun _ r => r.Current) []
    (fun hr hargs hcalled hcurrent => hcurrent.called hr hargs hcalled)
    (fun _ _ hcurrent => ⟨hcurrent.size, hcurrent.last, hcurrent.blank⟩) hr hcurrent

end Run

namespace Sketch

variable {s : Sketch} {r : Run}

/-- **The last frame is the final image.** Every entry of the final canvas has its object. If there
were frames, the last snapshot shows at the end what is on the canvas, the same objects in the same
colours and order, so at every scale its image is that of the canvas; and if there were none, the
canvas is empty. -/
theorem last_frame_is_final (h : s.run .keep = .ok r) :
    (∀ e ∈ r.machine.session.canvas, ∃ o, r.machine.heap.get? e.object = some o) ∧
    (0 < r.frames → ∃ frame, r.snapshots.back? = some frame ∧ frame.shown = r.shown ∧
      ∀ scale, s.canvas.rasterise scale frame.shown = s.canvas.rasterise scale r.shown) ∧
    (r.frames = 0 → r.machine.session.canvas = #[]) := by
  have hcourse := course_run h
  have htidy := (hcourse.tidy .fresh).1
  have hcurrent := hcourse.current .fresh .fresh
  refine ⟨fun e he => ?_, fun hframes => ?_, hcurrent.blank⟩
  · exact Heap.exists_get?_of_lt (htidy.canvas e (Array.mem_toList_iff.2 he)).1
  · rw [← hcurrent.size] at hframes
    have hback : r.snapshots.back? = some r.snapshots[r.snapshots.size - 1] := by
      rw [Array.back?_eq_getElem?, Array.getElem?_eq_getElem]
    have hshown := hcurrent.last _ hback
    exact ⟨_, hback, hshown, fun scale => by rw [hshown]⟩

theorem last_frame_is_final_sprouting : ∃ r frame, sprouting.run .keep = .ok r ∧ r.frames = 6 ∧
    r.snapshots.back? = some frame ∧ frame.shown = r.shown := by
  obtain ⟨r, hrun, hframes⟩ : ∃ r, sprouting.run .keep = .ok r ∧ r.frames = 6 := ⟨_, rfl, rfl⟩
  obtain ⟨frame, hback, hshown, -⟩ := (last_frame_is_final hrun).2.1 (by omega)
  exact ⟨r, frame, hrun, hframes, hback, hshown⟩

end Sketch

end Easel
