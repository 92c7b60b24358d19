import Mathlib.Data.List.Forall2
import Mathlib.Data.List.Nodup
import Easel.Proofs.Command.Hosts
import Easel.Proofs.Sketch.Accounts

/-!
# Albums

The album of a sketch lists the pictures that rendering makes of it, each with the path of its file.
Rendering a file saves the album of its sketch, and rendering files saves their albums one after the
other. The files of one album are different ones. Those of two sketches need not be: files are named
for the sketch, by a name that its author chooses, and a later picture takes the place of an earlier
one. Nothing is written for a sketch until it has been read, checked, run and drawn.
-/

namespace Easel.Command

open FileStore (Saves Spares)

/-! ## One after the other -/

/-- If each of some tasks spares what is not its own and saves an album of its own, then all of them
in turn spare what is not theirs and save their albums, up to the first that fails. -/
theorem forM_spec {α : Type} {body : α → Task (StateM World) Unit}
    (P : FileStore → α → Location → Prop) (A : FileStore → α → List (String × Image) → Prop)
    {xs : List α} {w w' : World} {result : Except Error Unit}
    (h : (xs.forM body).run w = (result, w'))
    (hbody : ∀ x w w' result, (body x).run w = (result, w') →
      Spares (P w.files x) w.files w'.files ∧
        (result = .ok () → ∃ album, A w.files x album ∧ Saves album w.files w'.files))
    (hP : ∀ {s t album x l}, Saves album s t → P t x l → P s x l)
    (hA : ∀ {s t album x album'}, Saves album s t → A t x album' → A s x album') :
    Spares (fun l => ∃ x ∈ xs, P w.files x l) w.files w'.files ∧
      (result = .ok () → ∃ albums, List.Forall₂ (A w.files) xs albums ∧
        Saves albums.flatten w.files w'.files) := by
  induction xs generalizing w with
  | nil =>
    obtain ⟨rfl, rfl⟩ := Prod.mk.inj h
    exact ⟨Spares.refl _ _, fun _ => ⟨[], .nil, Saves.nil _⟩⟩
  | cons x xs ih =>
    have hhead {w₁ : World} (hspares : Spares (P w.files x) w.files w₁.files) :
        Spares (fun l => ∃ y ∈ x :: xs, P w.files y l) w.files w₁.files :=
      hspares.mono fun l hl => ⟨x, List.mem_cons_self, hl⟩
    have hrun : (body x >>= fun _ => xs.forM body).run w = (result, w') := h
    rcases Action.run_bind_cases hrun with ⟨e, hfirst, rfl⟩ | ⟨_, w₁, hfirst, hrest⟩
    · exact ⟨hhead (hbody x _ _ _ hfirst).1, nofun⟩
    · obtain ⟨hspares, hsaves⟩ := hbody x _ _ _ hfirst
      obtain ⟨album, hown, hsaved⟩ := hsaves rfl
      obtain ⟨hspares', hsaves'⟩ := ih hrest
      refine ⟨(hhead hspares).trans (hspares'.mono fun l ⟨y, hy, hl⟩ =>
        ⟨y, List.mem_cons_of_mem _ hy, hP hsaved hl⟩), fun hok => ?_⟩
      obtain ⟨albums, halbums, hsaved'⟩ := hsaves' hok
      exact ⟨album :: albums, .cons hown (halbums.imp fun y album' => hA hsaved),
        hsaved.append hsaved'⟩

namespace RenderOptions

variable {o : RenderOptions} {s : Sketch} {w w' : World} {result : Except Error Unit}

/-! ## The album of a sketch -/

/-- The picture of a frame, with the path of its file. -/
def framePicture (o : RenderOptions) (s : Sketch) (frame : Frame) :
    Except Error (String × Image) := do
  return (o.framePath s frame.index, ← s.canvas.rasterise o.scale frame.shown)

/-- The album of a sketch: its image and, if frames are written too, the image of every frame. -/
def album (o : RenderOptions) (s : Sketch) : Except Error (List (String × Image)) := do
  let run ← s.run (if o.frames then .keep else .skip)
  let image ← s.canvas.rasterise o.scale run.shown
  let frames ← run.snapshots.toList.mapM (o.framePicture s)
  return (o.imagePath s, image) :: frames

/-- The locations that rendering a sketch may write to. -/
def NamedFor (o : RenderOptions) (files : FileStore) (s : Sketch) (l : Location) : Prop :=
  l = files.place (o.imagePath s) ∨ o.frames = true ∧ ∃ i, l = files.place (o.framePath s i)

/-- A sketch file holds a sketch whose pictures may be written to a location. -/
def Owns (o : RenderOptions) (files : FileStore) (path : String) (l : Location) : Prop :=
  ∃ text s, files.HoldsText (files.place path) text ∧ Sketch.ofText text = .ok s ∧
    o.NamedFor files s l

/-- A sketch file holds a sketch with this album. -/
def Renders (o : RenderOptions) (files : FileStore) (path : String)
    (pictures : List (String × Image)) : Prop :=
  ∃ text s, files.HoldsText (files.place path) text ∧ Sketch.ofText text = .ok s ∧
    o.album s = .ok pictures

/-! ## What rendering saves -/

theorem saveFrame_spec {frame : Frame}
    (h : (o.saveFrame s frame : Task (StateM World) Unit).run w = (result, w')) :
    Spares (· = w.files.place (o.framePath s frame.index)) w.files w'.files ∧
      (result = .ok () → ∃ pictures, (∃ q, o.framePicture s frame = .ok q ∧ pictures = [q]) ∧
        Saves pictures w.files w'.files) := by
  rw [saveFrame, Action.run_bind, Action.run_lift] at h
  cases himage : s.canvas.rasterise o.scale frame.shown with
  | error e =>
    rw [himage] at h
    obtain ⟨rfl, rfl⟩ := Prod.mk.inj h
    exact ⟨Spares.refl _ _, nofun⟩
  | ok image =>
    rw [himage] at h
    obtain ⟨hspares, hsaves⟩ := savePicture_spec h
    have hpicture : o.framePicture s frame = .ok (o.framePath s frame.index, image) := by
      simp [framePicture, himage, bind, Except.bind, pure, Except.pure]
    exact ⟨hspares, fun hok => ⟨_, ⟨_, hpicture, rfl⟩, hsaves hok⟩⟩

theorem mapM_of_forall₂ {frames : List Frame} {albums : List (List (String × Image))}
    (h : List.Forall₂ (fun frame pictures =>
      ∃ q, o.framePicture s frame = .ok q ∧ pictures = [q]) frames albums) :
    frames.mapM (o.framePicture s) = .ok albums.flatten := by
  induction h with
  | nil => rfl
  | cons hfirst hrest ih =>
    obtain ⟨q, hq, rfl⟩ := hfirst
    rw [List.mapM_cons, hq, ih]
    rfl

theorem saveFrames_spec {frames : List Frame}
    (h : (frames.forM fun frame => o.saveFrame (m := StateM World) s frame).run w = (result, w')) :
    Spares (fun l => ∃ frame ∈ frames, l = w.files.place (o.framePath s frame.index))
        w.files w'.files ∧
      (result = .ok () → ∃ pictures, frames.mapM (o.framePicture s) = .ok pictures ∧
        Saves pictures w.files w'.files) := by
  obtain ⟨hspares, hsaves⟩ := forM_spec
    (fun files frame l => l = files.place (o.framePath s frame.index))
    (fun _ frame pictures => ∃ q, o.framePicture s frame = .ok q ∧ pictures = [q]) h
    (fun frame _ _ _ h => by exact saveFrame_spec h)
    (fun hsaved hl => (FileStore.place_of_here hsaved.here _) ▸ hl) (fun _ hown => hown)
  refine ⟨hspares, fun hok => ?_⟩
  obtain ⟨albums, halbums, hsaved⟩ := hsaves hok
  exact ⟨_, mapM_of_forall₂ halbums, hsaved⟩

/-- Checking a sketch changes no file. -/
theorem files_of_checkSketch {path : String}
    (h : (o.checkSketch path s : Task (StateM World) Unit).run w = (result, w')) :
    w'.files = w.files := by
  have hverdict {w₁ : World} (h : ((if 0 < Diagnostic.errors s.check then
      throw (.build (.checksFailed s.name)) else pure ()) : Task (StateM World) Unit).run w₁ =
        (result, w')) : w'.files = w₁.files := by
    split at h <;> exact congrArg World.files (Prod.mk.inj h).2.symm
  unfold checkSketch at h
  split at h
  · dsimp only at h
    split at h
    · rw [Action.run_bind, World.run_host, World.run_complain] at h
      dsimp only at h
      have hcomplained := hverdict h
      exact hcomplained
    · exact hverdict h
  · exact congrArg World.files (Prod.mk.inj h).2.symm

/-- The snapshots of a run are those that the options ask for. -/
theorem snapshots_of_run {r : Run} (h : s.run (if o.frames then .keep else .skip) = .ok r) :
    r.snapshots.toList.map Frame.index = if o.frames then List.range r.frames else [] := by
  have hindices : r.snapshots.toList.map Frame.index = r.kept.toList.map Snapshot.index := by
    simp [Run.snapshots]
  cases hframes : o.frames with
  | true =>
    rw [hframes] at h
    rw [hindices, (Sketch.course_run h).balanced.indices rfl, if_pos rfl]
  | false =>
    rw [hframes] at h
    rw [hindices, (Sketch.course_run h).balanced.skipped rfl]
    rfl

theorem frames_of_mem {r : Run} {frame : Frame}
    (h : s.run (if o.frames then .keep else .skip) = .ok r) (hframe : frame ∈ r.snapshots.toList) :
    o.frames = true := by
  by_contra hframes
  have hnone := snapshots_of_run h
  rw [if_neg hframes, List.map_eq_nil_iff] at hnone
  rw [hnone] at hframe
  cases hframe

/-! ## Rendering in two parts -/

/-- A sketch that is ready to be written: it has been run, and its image has been drawn. -/
structure Prepared where
  sketch : Sketch
  run : Run
  image : Image

section Parts

variable {m : Type → Type} [Monad m] [Host m]

/-- All that is done for a file before something is written for it. -/
def prepare (o : RenderOptions) (path : String) : Task m Prepared := do
  let s ← Sources.load path
  o.checkSketch path s
  let run ← (s.run (if o.frames then .keep else .skip) : Except Error Run)
  let image ← (s.canvas.rasterise o.scale run.shown : Except Error Image)
  return ⟨s, run, image⟩

/-- Writes the image, and then the frames. -/
def publish (o : RenderOptions) (p : Prepared) : Task m Unit := do
  savePicture (o.imagePath p.sketch) p.image
  (Host.print ("  " ++ p.sketch.name ++ " -> " ++ o.imagePath p.sketch ++
    s!" ({p.run.frames} frame(s))\n") : m _)
  p.run.snapshots.toList.forM fun frame => o.saveFrame p.sketch frame

theorem renderFile_eq [LawfulMonad m] (o : RenderOptions) (path : String) :
    (o.renderFile path : Task m Unit) = o.prepare path >>= o.publish := by
  simp only [renderFile, prepare, publish, bind_assoc, pure_bind]

end Parts

/-- Preparing a file changes no file. What is prepared is the sketch in the file, its run and the
image of what the run displays. -/
theorem prepare_spec {path : String} {result : Except Error Prepared}
    (h : (o.prepare path : Task (StateM World) Prepared).run w = (result, w')) :
    w'.files = w.files ∧ ∀ p, result = .ok p →
      (∃ text, w.files.HoldsText (w.files.place path) text ∧ Sketch.ofText text = .ok p.sketch) ∧
        p.sketch.run (if o.frames then .keep else .skip) = .ok p.run ∧
        p.sketch.canvas.rasterise o.scale p.run.shown = .ok p.image := by
  unfold prepare at h
  rcases Action.run_bind_cases h with ⟨e, hload, rfl⟩ | ⟨s, w₁, hload, hloaded⟩
  · obtain ⟨rfl, -⟩ := Sources.load_spec hload
    exact ⟨rfl, nofun⟩
  obtain ⟨rfl, hsource⟩ := Sources.load_spec hload
  rcases Action.run_bind_cases hloaded with ⟨e, hcheck, rfl⟩ | ⟨_, w₂, hcheck, hchecked⟩
  · exact ⟨files_of_checkSketch hcheck, nofun⟩
  have hfiles := files_of_checkSketch hcheck
  rcases Action.run_lift_bind_cases hchecked with ⟨e, rfl, rfl⟩ | ⟨run, hrun, hran⟩
  · exact ⟨hfiles, nofun⟩
  rcases Action.run_lift_bind_cases hran with ⟨e, rfl, rfl⟩ | ⟨image, himage, hdrawn⟩
  · exact ⟨hfiles, nofun⟩
  rw [Action.run_pure] at hdrawn
  obtain ⟨rfl, rfl⟩ := Prod.mk.inj hdrawn
  refine ⟨hfiles, fun p hp => ?_⟩
  cases hp
  exact ⟨hsource s rfl, hrun, himage⟩

/-- **Rendering a file** saves the album of its sketch. If it fails, no file has changed except
where the pictures of its sketch belong. -/
theorem renderFile_spec {path : String}
    (h : (o.renderFile path : Task (StateM World) Unit).run w = (result, w')) :
    Spares (o.Owns w.files path) w.files w'.files ∧
      (result = .ok () → ∃ pictures, o.Renders w.files path pictures ∧
        Saves pictures w.files w'.files) := by
  rw [renderFile_eq] at h
  rcases Action.run_bind_cases h with ⟨e, hprepare, rfl⟩ | ⟨p, w₁, hprepare, hpublish⟩
  · rw [(prepare_spec hprepare).1]
    exact ⟨.refl _ _, nofun⟩
  obtain ⟨hfiles, hprepared⟩ := prepare_spec hprepare
  obtain ⟨⟨text, htext, hsketch⟩, hrun, himage⟩ := hprepared p rfl
  rw [← hfiles] at htext ⊢
  have himagePlace {w₂ : World}
      (h : Spares (· = w₁.files.place (o.imagePath p.sketch)) w₁.files w₂.files) :
      Spares (o.Owns w₁.files path) w₁.files w₂.files :=
    h.mono fun l hl => ⟨text, p.sketch, htext, hsketch, .inl hl⟩
  rcases Action.run_bind_cases hpublish with ⟨e, hsave, rfl⟩ | ⟨_, w₂, hsave, hsaved⟩
  · exact ⟨himagePlace (savePicture_spec hsave).1, nofun⟩
  obtain ⟨hspares, hsaves⟩ := savePicture_spec hsave
  rw [Action.run_bind, World.run_host, World.run_print] at hsaved
  obtain ⟨hspares', hsaves'⟩ := saveFrames_spec hsaved
  have himageSaved := hsaves rfl
  have hplace := FileStore.place_of_here himageSaved.here
  refine ⟨(himagePlace hspares).trans (hspares'.mono ?_), fun hok => ?_⟩
  · rintro l ⟨frame, hframe, rfl⟩
    exact ⟨text, p.sketch, htext, hsketch,
      .inr ⟨frames_of_mem hrun hframe, frame.index, hplace _⟩⟩
  · obtain ⟨pictures, hpictures, hframesSaved⟩ := hsaves' hok
    refine ⟨(o.imagePath p.sketch, p.image) :: pictures,
      ⟨text, p.sketch, htext, hsketch, ?_⟩, himageSaved.append hframesSaved⟩
    simp [album, hrun, himage, hpictures, bind, Except.bind, pure, Except.pure]

/-! ## The whole command -/

theorem Owns.of_saves {s t : FileStore} {pictures : List (String × Image)} {path : String}
    {l : Location} (hsaved : Saves pictures s t) (h : o.Owns t path l) : o.Owns s path l := by
  obtain ⟨text, sketch, htext, hsketch, hl⟩ := h
  have hplace := FileStore.place_of_here hsaved.here
  rw [hplace] at htext
  refine ⟨text, sketch, hsaved.holdsText_of htext, hsketch, ?_⟩
  simpa only [NamedFor, hplace] using hl

theorem Renders.of_saves {s t : FileStore} {pictures album : List (String × Image)} {path : String}
    (hsaved : Saves pictures s t) (h : o.Renders t path album) : o.Renders s path album := by
  obtain ⟨text, sketch, htext, hsketch, halbum⟩ := h
  rw [FileStore.place_of_here hsaved.here] at htext
  exact ⟨text, sketch, hsaved.holdsText_of htext, hsketch, halbum⟩

/-- **Rendering files** saves the albums of their sketches, one after the other. If it fails, no
file has changed except where pictures of these sketches belong. -/
theorem run_spec (h : (o.run : Task (StateM World) Unit).run w = (result, w')) :
    Spares (fun l => ∃ path ∈ w.sketchFiles o.paths, o.Owns w.files path l) w.files w'.files ∧
      (result = .ok () → ∃ albums,
        List.Forall₂ (o.Renders w.files) (w.sketchFiles o.paths) albums ∧
          Saves albums.flatten w.files w'.files) := by
  have hfiles {w₁ : World} {result : Except Error Unit}
      (h : ((w.sketchFiles o.paths).forM o.renderFile : Task (StateM World) Unit).run w =
        (result, w₁)) :=
    forM_spec o.Owns o.Renders h (fun _ _ _ _ h => renderFile_spec h) Owns.of_saves Renders.of_saves
  rw [run, Action.run_bind, World.run_host, Sources.run_expandAll] at h
  dsimp only at h
  split at h
  · obtain ⟨rfl, rfl⟩ := Prod.mk.inj h
    exact ⟨Spares.refl _ _, nofun⟩
  rcases Action.run_bind_cases h with ⟨e, hrun, rfl⟩ | ⟨_, w₁, hrun, hdone⟩
  · exact ⟨(hfiles hrun).1, nofun⟩
  · obtain ⟨-, rfl⟩ := Prod.mk.inj hdone
    exact ⟨(hfiles hrun).1, fun _ => (hfiles hrun).2 rfl⟩

end RenderOptions

end Easel.Command
