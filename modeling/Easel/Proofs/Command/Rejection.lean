import Easel.Proofs.Command.Albums
import Easel.Proofs.Sketch.Rasterising

/-!
# Rejected sketches

A sketch that is not in order is rejected before anything is written for it: it is read, checked,
run and drawn first. From then on only the files themselves are left to fail, since whether there is
a picture of a canvas depends on the canvas and on the scale but not on what is shown, and the image
is drawn on the same canvas and at the same scale as all the frames.
-/

namespace Easel

/-- Whether an error is one of the file system. -/
def Error.isFileError : Error → Bool
  | .io .. => true
  | _ => false

namespace Command

/-- Whatever the world, a task that fails does so because of the file system. -/
def FailsOnFiles {α : Type} (t : Task (StateM World) α) : Prop :=
  ∀ w w' e, t.run w = (.error e, w') → e.isFileError = true

/-! ## Tasks that fail on files only -/

namespace FailsOnFiles

variable {α β : Type}

theorem pure (v : α) : FailsOnFiles (Pure.pure v) := nofun

theorem host (x : StateM World α) : FailsOnFiles (liftM x) := nofun

theorem onFile (path : String) (action : FileAction)
    (operation : StateM World (Except FileFault Unit)) :
    FailsOnFiles (onFile path action operation) := by
  intro w w' e h
  rw [run_onFile] at h
  have hresult := (Prod.mk.inj h).1
  split at hresult <;> cases hresult
  rfl

theorem bind {x : Task (StateM World) α} {k : α → Task (StateM World) β}
    (hx : FailsOnFiles x) (hk : ∀ v, FailsOnFiles (k v)) : FailsOnFiles (x >>= k) := by
  intro w w' e h
  rcases Action.run_bind_cases h with ⟨_, hfirst, heq⟩ | ⟨v, w₁, -, hrest⟩
  · cases heq
    exact hx _ _ _ hfirst
  · exact hk v _ _ _ hrest

theorem forM {xs : List α} {body : α → Task (StateM World) Unit}
    (h : ∀ x, FailsOnFiles (body x)) : FailsOnFiles (xs.forM body) := by
  induction xs with
  | nil => exact pure ()
  | cons x xs ih => exact (h x).bind fun _ => ih

theorem savePicture (path : String) (image : Image) : FailsOnFiles (savePicture path image) := by
  have hwrite := onFile path .writePicture (writePicture path image)
  unfold Command.savePicture
  split
  · split
    · exact (onFile _ _ _).bind fun _ => hwrite
    · exact hwrite
  · exact hwrite

end FailsOnFiles

namespace RenderOptions

variable {o : RenderOptions}

/-- What is shown does not matter for there to be a picture. -/
theorem exists_rasterise_of_rasterise {c : Canvas} {scale : Nat} {shown : List (Object × Colour)}
    {image : Image} (h : c.rasterise scale shown = .ok image)
    (shown' : List (Object × Colour)) : ∃ image', c.rasterise scale shown' = .ok image' :=
  (c.exists_rasterise_iff scale shown').2 ((c.exists_rasterise_iff scale shown).1 ⟨image, h⟩)

theorem failsOnFiles_saveFrame {s : Sketch} {frame : Frame}
    (h : ∃ image, s.canvas.rasterise o.scale frame.shown = .ok image) :
    FailsOnFiles (o.saveFrame s frame) := by
  obtain ⟨image, himage⟩ := h
  rw [saveFrame, himage]
  exact (FailsOnFiles.pure image).bind fun image => .savePicture _ image

/-- If there is an image of a sketch, then all that it shows can be written unless the file system
fails. -/
theorem failsOnFiles_publish {p : Prepared} {shown : List (Object × Colour)} {image : Image}
    (h : p.sketch.canvas.rasterise o.scale shown = .ok image) : FailsOnFiles (o.publish p) :=
  (FailsOnFiles.savePicture _ _).bind fun _ => (FailsOnFiles.host _).bind fun _ =>
    .forM fun frame => failsOnFiles_saveFrame (exists_rasterise_of_rasterise h frame.shown)

/-- **A rejected sketch writes nothing.** Rendering a file is preparing it and then publishing it.
Preparing changes no file. What is prepared is published unless the file system fails, whatever the
world is by then and however many frames there are. So if rendering a file fails in any other way,
then no file has been made or changed. -/
theorem renderFile_rejected (o : RenderOptions) (path : String) :
    (o.renderFile path : Task (StateM World) Unit) = o.prepare path >>= o.publish ∧
    (∀ w w' result, (o.prepare path : Task (StateM World) Prepared).run w = (result, w') →
      w'.files = w.files) ∧
    (∀ w w' p, (o.prepare path : Task (StateM World) Prepared).run w = (.ok p, w') →
      ∀ run, FailsOnFiles (o.publish { p with run })) ∧
    ∀ w w' e, (o.renderFile path : Task (StateM World) Unit).run w = (.error e, w') →
      e.isFileError = false → w'.files = w.files := by
  have hpublish : ∀ w w' p, (o.prepare path : Task (StateM World) Prepared).run w = (.ok p, w') →
      ∀ run, FailsOnFiles (o.publish { p with run }) :=
    fun w w' p h run => failsOnFiles_publish ((prepare_spec h).2 p rfl).2.2
  refine ⟨renderFile_eq o path, fun w w' result h => (prepare_spec h).1, hpublish, ?_⟩
  intro w w' e h hother
  rw [renderFile_eq] at h
  rcases Action.run_bind_cases h with ⟨_, hprepare, -⟩ | ⟨p, w₁, hprepare, hpublished⟩
  · exact (prepare_spec hprepare).1
  · have hfile := hpublish _ _ p hprepare p.run _ _ _ hpublished
    exact absurd (hother.symm.trans hfile) nofun

/-- A sketch that calls what there is not, one that is a pixel, and a file where the pictures would
go to. -/
def desk : World where
  files := { nodes := [
    (["nope.sketch.yaml"], .file (.bytes "name: nope\nsteps:\n  - call: Nope\n".toUTF8)),
    (["dot.sketch.yaml"], .file (.bytes "name: dot\ncanvas:\n  width: 1\n  height: 1\n".toUTF8)),
    (["dist"], .file (.bytes .empty))] }

def renderFrames : RenderOptions where
  paths := []
  frames := true

theorem renderFile_rejected_desk :
    (∃ w', (renderFrames.renderFile "nope.sketch.yaml" : Task (StateM World) Unit).run desk =
        (.error (.build (.checksFailed "nope")), w') ∧ w'.files = desk.files) ∧
      ∃ w₁ p, (renderFrames.prepare "dot.sketch.yaml" : Task (StateM World) Prepared).run desk =
        (.ok p, w₁) ∧ w₁.files = desk.files ∧ ∃ w' e,
          (renderFrames.publish p : Task (StateM World) Unit).run w₁ = (.error e, w') ∧
            e.isFileError = true := by
  have hnope : ((renderFrames.renderFile "nope.sketch.yaml" : Task (StateM World) Unit).run
      desk).1 = .error (.build (.checksFailed "nope")) := by decide +kernel
  have hdot : ((renderFrames.renderFile "dot.sketch.yaml" : Task (StateM World) Unit).run
      desk).1 = .error (.io "dist" .createDirectory .alreadyExists) := by decide +kernel
  have hprepared : ((renderFrames.prepare "dot.sketch.yaml" : Task (StateM World) Prepared).run
      desk).1.isOk = true := by decide +kernel
  obtain ⟨-, -, -, hrejected⟩ := renderFile_rejected renderFrames "nope.sketch.yaml"
  obtain ⟨hparts, hkept, hpublish, -⟩ := renderFile_rejected renderFrames "dot.sketch.yaml"
  refine ⟨⟨_, Prod.ext hnope rfl, hrejected _ _ _ (Prod.ext hnope rfl) rfl⟩, ?_⟩
  have hrun : (renderFrames.renderFile "dot.sketch.yaml" : Task (StateM World) Unit).run desk =
      (.error (.io "dist" .createDirectory .alreadyExists), _) := Prod.ext hdot rfl
  rw [hparts] at hrun
  rcases Action.run_bind_cases hrun with ⟨e, hfail, -⟩ | ⟨p, w₁, hp, hfail⟩
  · rw [hfail] at hprepared
    cases hprepared
  · exact ⟨w₁, p, hp, hkept _ _ _ hp, _, _, hfail, hpublish _ _ p hp p.run _ _ _ hfail⟩

end RenderOptions

end Command

end Easel
