import Easel.Proofs.Sketch.Course
import Mathlib.Data.List.Count

/-!
# Frame accounting

Frames, requests, entries of the canvas and snapshots are counted apart, and stay in step: each is
what the calls say that the run has made. `Run.Balanced` is that invariant, and `frame_accounting`
what it comes to at the end of a run.
-/

namespace Easel

namespace Call

/-- The call puts its receiver on the canvas. -/
def draws (c : Call) : Bool := decide (c.native ∈ Natives.drawing)

/-- The call asks for a redraw: it puts its receiver on the canvas or lets it grow. -/
def redraws (c : Call) : Bool := decide (c.native ∈ Natives.drawing ++ Natives.growing)

/-- What the call puts on the canvas if it draws: its receiver, in the colour that it asks for. -/
def shown? (c : Call) : Option Shown :=
  match c.args.head? with
  | some (.object q) => some ⟨q, Deed.stroke c.args⟩
  | _ => none

end Call

namespace Run

variable {snapshots : Snapshots} {index : Nat} {name : String} {args : List Value}
  {r r' : Run} {answer : Option Value} {log : List Call}

/-- The run stands where the calls `log` take a run that has made none before. -/
structure Balanced (snapshots : Snapshots) (log : List Call) (r : Run) : Prop where
  frames : r.frames = log.countP Call.redraws
  requests : r.machine.session.renderRequests = log.countP Call.redraws
  canvas : r.machine.session.canvas.toList.map some = (log.filter Call.draws).map Call.shown?
  indices : snapshots = .keep → r.kept.toList.map Snapshot.index = List.range r.frames
  steps : snapshots = .keep →
    r.kept.toList.map Snapshot.step = (log.filter Call.redraws).map Call.step
  skipped : snapshots = .skip → r.kept = #[]

theorem Balanced.fresh (snapshots : Snapshots) : Balanced snapshots [] {} :=
  ⟨rfl, rfl, rfl, fun _ => rfl, fun _ => rfl, fun _ => rfl⟩

/-- A frame that was asked for is counted once, and its snapshot has the number of the frame. -/
theorem Balanced.takeFrame {c : Call} (h : Balanced snapshots log r) {m : Machine}
    (hpending : m.session.redrawPending = true)
    (hrequests : m.session.renderRequests = r.machine.session.renderRequests + 1)
    (hcanvas : m.session.canvas.toList.map some =
      ((log ++ [c]).filter Call.draws).map Call.shown?) (hc : c.redraws = true) :
    Balanced snapshots (log ++ [c]) (takeFrame snapshots c.step { r with machine := m }) := by
  have hcount : (log ++ [c]).countP Call.redraws = log.countP Call.redraws + 1 := by
    simp [hc]
  have hframes : (Run.takeFrame snapshots c.step { r with machine := m }).frames =
      r.frames + 1 := by
    rw [frames_takeFrame, if_pos hpending]
  refine ⟨?_, ?_, ?_, ?_, ?_, ?_⟩
  · rw [hframes, hcount, h.frames]
  · rw [session_takeFrame, hcount, ← h.requests]
    exact hrequests
  · rw [session_takeFrame]
    exact hcanvas
  · rintro rfl
    rw [hframes, kept_takeFrame_keep _ _ hpending, List.range_succ, ← h.indices rfl]
    simp
  · rintro rfl
    rw [kept_takeFrame_keep _ _ hpending, Array.toList_push, List.map_append, h.steps rfl]
    simp [hc]
  · rintro rfl
    rw [kept_takeFrame_skip]
    exact h.skipped rfl

/-- **Every call keeps the balance.** -/
theorem Balanced.called (h : Balanced snapshots log r)
    (hc : Called snapshots index name args r answer r') :
    Balanced snapshots (log ++ [⟨index, name, args⟩]) r' := by
  cases hc with
  | quiet os hdraw hgrow _ =>
    have hdraws : Call.draws ⟨index, name, args⟩ = false := decide_eq_false hdraw
    have hredraws : Call.redraws ⟨index, name, args⟩ = false := by
      simp [Call.redraws, hdraw, hgrow]
    refine ⟨?_, ?_, ?_, h.indices, ?_, h.skipped⟩
    · simpa [hredraws] using h.frames
    · simpa [hredraws] using h.requests
    · simpa [hdraws] using h.canvas
    · simpa [hredraws] using h.steps
  | draw hdraw _ hq _ =>
    have hdraws : Call.draws ⟨index, name, args⟩ = true := decide_eq_true hdraw
    refine h.takeFrame rfl rfl ?_ ?_
    · simp only [Session.requestRender, Session.display, Array.toList_push, List.map_append,
        List.filter_append, h.canvas]
      simp [hdraws, Call.shown?, hq]
    · simp [Call.redraws, hdraw]
  | grow o hdraw hgrow _ _ _ =>
    have hdraws : Call.draws ⟨index, name, args⟩ = false := decide_eq_false hdraw
    refine h.takeFrame rfl rfl ?_ ?_
    · simpa [hdraws, Session.requestRender] using h.canvas
    · simp [Call.redraws, hgrow]

theorem Course.balanced (h : Course snapshots {} log r) : Balanced snapshots log r :=
  h.induct (P := Balanced snapshots) [] (fun _ _ hcalled hbalanced => hbalanced.called hcalled)
    (fun _ _ hbalanced => ⟨hbalanced.frames, hbalanced.requests, hbalanced.canvas,
      hbalanced.indices, hbalanced.steps, hbalanced.skipped⟩) .fresh (.fresh snapshots)

/-! ## The calls of a sketch -/

/-- Steps that go well make the calls that the sketch lists, each as often as it says. -/
theorem native_calls {ss : List Step} (h : Run.steps snapshots index ss r = .ok r') :
    (calls snapshots index ss r).map Call.native =
      ss.flatMap fun step => List.replicate step.times step.call := by
  induction ss generalizing index r with
  | nil => rfl
  | cons s rest ih =>
    obtain ⟨r₁, hstep, hsteps⟩ := steps_cons_eq_ok.1 h
    simp only [calls, hstep, List.map_append, List.map_replicate, List.flatMap_cons, ih hsteps]

/-- The calls that a sketch counts are those that its steps list. -/
theorem length_listed_calls (s : Sketch) :
    (s.steps.flatMap fun step => List.replicate step.times step.call).length = s.callCount := by
  rw [Sketch.callCount]
  induction s.steps with
  | nil => rfl
  | cons step rest ih =>
    simp only [List.flatMap_cons, List.length_append, List.length_replicate, ih, List.foldr_cons]

/-- Calls are made in the order of the steps. -/
theorem pairwise_calls (snapshots : Snapshots) (index : Nat) (ss : List Step) (r : Run) :
    (∀ c ∈ calls snapshots index ss r, index ≤ c.step) ∧
      (calls snapshots index ss r).Pairwise (fun c d => c.step ≤ d.step) := by
  induction ss generalizing index r with
  | nil => simp [calls]
  | cons s rest ih =>
    unfold calls
    cases hstep : step snapshots index s r with
    | error e => simp
    | ok r₁ =>
      obtain ⟨hle, hpairwise⟩ := ih (index + 1) r₁
      refine ⟨fun c hc => ?_, List.pairwise_append.2 ⟨?_, hpairwise, fun c hc d hd => ?_⟩⟩
      · rcases List.mem_append.1 hc with hc | hc
        · exact Nat.le_of_eq (congrArg Call.step (List.eq_of_mem_replicate hc)).symm
        · exact Nat.le_of_succ_le (hle c hc)
      · simp [List.pairwise_replicate]
      · rw [List.eq_of_mem_replicate hc]
        exact Nat.le_of_succ_le (hle d hd)

end Run

namespace Sketch

/-- A run that goes well makes all the calls that the sketch counts. -/
theorem length_calls {snapshots : Snapshots} {s : Sketch} {r : Run}
    (h : s.run snapshots = .ok r) : (s.calls snapshots).length = s.callCount := by
  rw [← Run.length_listed_calls, ← Run.native_calls h, List.length_map]
  rfl

/-- **Frames are accounted for.** In a run that goes well there are as many frames as requests, and
as many as calls that draw, step or enclose, so no more than the calls that the sketch counts; no
redraw is left pending; the canvas has an entry for every call that draws, in the order of the
calls. The snapshots, if they are kept, are those of all frames, numbered from zero and in the order
of the steps. -/
theorem frame_accounting {snapshots : Snapshots} {s : Sketch} {r : Run}
    (h : s.run snapshots = .ok r) :
    (s.calls snapshots).map Call.native =
      s.steps.flatMap (fun step => List.replicate step.times step.call) ∧
    r.frames = r.machine.session.renderRequests ∧
    r.frames = (s.calls snapshots).countP Call.redraws ∧
    r.frames ≤ s.callCount ∧
    r.machine.session.redrawPending = false ∧
    r.machine.session.canvas.size = (s.calls snapshots).countP Call.draws ∧
    r.machine.session.canvas.toList.map some =
      ((s.calls snapshots).filter Call.draws).map Call.shown? ∧
    match snapshots with
    | .keep => r.snapshots.size = r.frames ∧
        (∀ (i : Nat) (frame : Frame), r.snapshots[i]? = some frame → frame.index = i) ∧
        (r.snapshots.toList.map Frame.step).Pairwise (· ≤ ·)
    | .skip => r.snapshots = #[] := by
  have hcourse := course_run h
  have hbalanced := hcourse.balanced
  have hsize : r.machine.session.canvas.size = (s.calls snapshots).countP Call.draws := by
    simpa [List.countP_eq_length_filter] using congrArg List.length hbalanced.canvas
  have hcounted : r.frames ≤ s.callCount := by
    rw [hbalanced.frames, ← length_calls h]
    exact List.countP_le_length
  refine ⟨Run.native_calls h, hbalanced.frames.trans hbalanced.requests.symm, hbalanced.frames,
    hcounted, (hcourse.tidy .fresh).1.settled, hsize, hbalanced.canvas, ?_⟩
  have hindices : r.snapshots.toList.map Frame.index = r.kept.toList.map Snapshot.index := by
    simp [Run.snapshots]
  have hsteps : r.snapshots.toList.map Frame.step = r.kept.toList.map Snapshot.step := by
    simp [Run.snapshots]
  cases snapshots with
  | skip => simp [Run.snapshots, hbalanced.skipped rfl]
  | keep =>
    rw [hbalanced.indices rfl] at hindices
    refine ⟨by simpa using congrArg List.length hindices, fun i frame hi => ?_, ?_⟩
    · have hframe := congrArg (·[i]?) hindices
      simp only [List.getElem?_map, Array.getElem?_toList, hi, Option.map_some] at hframe
      exact (List.getElem?_eq_some_iff.1 hframe.symm).2.symm.trans (by simp)
    · rw [hsteps, hbalanced.steps rfl, List.pairwise_map]
      exact (Run.pairwise_calls .keep 0 s.steps {}).2.filter _

theorem frame_accounting_sprouting : ∃ r, sprouting.run .keep = .ok r ∧ r.frames = 6 ∧
    r.machine.session.canvas.size = 3 ∧ r.snapshots.size = 6 := by
  obtain ⟨r, hrun⟩ : ∃ r, sprouting.run .keep = .ok r := ⟨_, rfl⟩
  obtain ⟨-, -, hframes, -, -, hcanvas, -, hsnapshots, -⟩ := frame_accounting hrun
  have hredraws : (sprouting.calls .keep).countP Call.redraws = 6 := rfl
  have hdraws : (sprouting.calls .keep).countP Call.draws = 3 := rfl
  rw [hredraws] at hframes
  rw [hdraws] at hcanvas
  exact ⟨r, hrun, hframes, hcanvas, hsnapshots.trans hframes⟩

end Sketch

end Easel
