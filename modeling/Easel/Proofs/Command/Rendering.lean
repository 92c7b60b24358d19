import Easel.Proofs.Command.Albums

/-!
# What rendering keeps

The pictures of one sketch go to files of their own: frames are numbered, and the directory of the
frames and the file of the image differ in their last name. The pictures of two sketches may go to
the same file, since it is the authors of the sketches who name them. So a picture is kept unless a
sketch that is rendered later has a picture of the same place.
-/

namespace Easel.Command.RenderOptions

variable {o : RenderOptions} {s : Sketch}

/-! ## Names of frames -/

theorem toList_frameName (i : Nat) :
    (frameName i).toList = "frame-".toList ++
      (List.replicate (3 - (Nat.toDigits 10 i).length) '0' ++ Nat.toDigits 10 i) ++
        ".png".toList := by
  simp [frameName]

/-- Frames of different numbers have different names. -/
theorem frameName_injective : Function.Injective frameName := by
  intro i j h
  have hlist := congrArg String.toList h
  rw [toList_frameName, toList_frameName, List.append_left_inj, List.append_right_inj] at hlist
  have hvalue := congrArg (Nat.ofDigitChars 10 · 0) hlist
  simpa [Nat.ofDigitChars_append] using hvalue

theorem isAbsolute_frameName (i : Nat) : FilePath.isAbsolute (frameName i) = false := by
  simp [FilePath.isAbsolute, toList_frameName]

theorem steps_frameName (i : Nat) : FilePath.steps (frameName i) = [frameName i] := by
  have hslash : '/' ∉ (frameName i).toList := by
    have hdigits : '/' ∉ Nat.toDigits 10 i := fun hmem =>
      absurd (Nat.isDigit_of_mem_toDigits (by decide) (by decide) hmem) (by decide)
    simp [toList_frameName, hdigits]
  refine FilePath.steps_of_not_mem hslash (fun h => ?_) (fun h => ?_)
  all_goals
    have hlist := congrArg String.toList h
    simp [toList_frameName] at hlist

/-! ## Places -/

/-- The frames of a sketch are in one directory. -/
theorem place_framePath (files : FileStore) (i : Nat) :
    files.place (o.framePath s i) =
      files.place (FilePath.join o.output s.name) ++ [frameName i] := by
  have hname : frameName i ≠ ".." := fun h => by
    have hlist := congrArg String.toList h
    simp [toList_frameName] at hlist
  rw [framePath, FileStore.place_join, isAbsolute_frameName, steps_frameName]
  exact Location.walk_singleton _ hname

/-- Where the name of a sketch leads from: the output directory, or the root if the name is a path
from there. -/
def base (o : RenderOptions) (files : FileStore) (s : Sketch) : Location :=
  if FilePath.isAbsolute s.name then [] else files.place o.output

theorem place_directory (files : FileStore) (o : RenderOptions) (s : Sketch) :
    files.place (FilePath.join o.output s.name) = (o.base files s).walk (FilePath.steps s.name) :=
  FileStore.place_join files o.output s.name

/-- The image of a sketch is where its name leads, or would lead without its last part, under that
part with the ending of a picture. -/
theorem place_imagePath (files : FileStore) (o : RenderOptions) (s : Sketch) :
    ∃ (front : List String) (last : String),
      files.place (o.imagePath s) = (o.base files s).walk front ++ [last ++ ".png"] ∧
        (FilePath.steps s.name = front ∧ (last = "" ∨ last = ".") ∨
          FilePath.steps s.name = front ++ [last]) := by
  obtain ⟨front, last, hsteps, hname⟩ := FilePath.steps_append s.name
    (by decide : '/' ∉ ".png".toList) (by decide) (by decide)
  have habsolute : FilePath.isAbsolute (s.name ++ ".png") = FilePath.isAbsolute s.name := by
    cases hlist : s.name.toList <;> simp [FilePath.isAbsolute, hlist]
  have hend : last ++ ".png" ≠ ".." := fun h => by
    have hlist := congrArg (·.toList.getLast?) h
    simp at hlist
  refine ⟨front, last, ?_, hname⟩
  rw [imagePath, FileStore.place_join, habsolute, hsteps, Location.walk_append,
    Location.walk_singleton _ hend, base]

/-- The image of a sketch is not where one of its frames is. -/
theorem place_imagePath_ne_framePath (files : FileStore) (i : Nat) :
    files.place (o.imagePath s) ≠ files.place (o.framePath s i) := by
  obtain ⟨front, last, himage, hsteps⟩ := place_imagePath files o s
  rw [himage, place_framePath, place_directory]
  intro h
  obtain ⟨hfront, hname⟩ := List.append_inj' h rfl
  -- with the name of a frame, it is the directory of the frames that has more names
  have hlast : last.toList.head? = some 'f' := by
    have hlist := congrArg String.toList (List.singleton_inj.1 hname)
    rw [String.toList_append, toList_frameName, List.append_left_inj] at hlist
    simp [hlist]
  rcases hsteps with ⟨-, rfl | rfl⟩ | hsteps
  · simp at hlast
  · simp at hlast
  · have hne : last ≠ ".." := fun h => by simp [h] at hlast
    rw [hsteps, Location.walk_append, Location.walk_singleton _ hne] at hfront
    simpa using congrArg List.length hfront

theorem paths_of_frames {frames : List Frame} {pictures : List (String × Image)}
    (h : frames.mapM (o.framePicture s) = .ok pictures) :
    pictures.map Prod.fst = frames.map fun frame => o.framePath s frame.index := by
  induction frames generalizing pictures with
  | nil =>
    cases h
    rfl
  | cons frame frames ih =>
    rw [List.mapM_cons] at h
    obtain ⟨q, hq, hrest⟩ := bind_eq_ok.1 h
    obtain ⟨qs, hqs, hpictures⟩ := bind_eq_ok.1 hrest
    obtain ⟨image, -, hpair⟩ := bind_eq_ok.1 hq
    cases hpictures
    cases hpair
    rw [List.map_cons, List.map_cons, ih hqs]

/-- The paths of an album: that of the image, and those of the frames if frames are written too. -/
theorem paths_of_album {pictures : List (String × Image)} (h : o.album s = .ok pictures) :
    ∃ r, s.run (if o.frames then .keep else .skip) = .ok r ∧
      pictures.map Prod.fst =
        o.imagePath s :: if o.frames then (List.range r.frames).map (o.framePath s) else [] := by
  obtain ⟨r, hrun, hdraw⟩ := bind_eq_ok.1 h
  obtain ⟨image, -, hrest⟩ := bind_eq_ok.1 hdraw
  obtain ⟨frames, hframes, hpictures⟩ := bind_eq_ok.1 hrest
  cases hpictures
  have hindices : (r.snapshots.toList.map fun frame => o.framePath s frame.index) =
      (r.snapshots.toList.map Frame.index).map (o.framePath s) := by
    rw [List.map_map]
    rfl
  refine ⟨r, hrun, ?_⟩
  rw [List.map_cons, paths_of_frames hframes, hindices, snapshots_of_run hrun]
  split <;> rfl

/-- **No two pictures of a sketch have the same place.** -/
theorem nodup_places {pictures : List (String × Image)} (files : FileStore)
    (h : o.album s = .ok pictures) : (pictures.map fun q => files.place q.1).Nodup := by
  obtain ⟨r, -, hpaths⟩ := paths_of_album h
  have hplaces : pictures.map (fun q => files.place q.1) =
      (pictures.map Prod.fst).map files.place := by
    rw [List.map_map]
    rfl
  rw [hplaces, hpaths, List.map_cons, List.nodup_cons]
  have hinjective : Function.Injective fun i => files.place (o.framePath s i) := by
    intro i j hij
    simp only [place_framePath] at hij
    exact frameName_injective (List.singleton_inj.1 (List.append_inj' hij rfl).2)
  split
  · refine ⟨?_, ?_⟩
    · simpa using fun i _ h => place_imagePath_ne_framePath files i h.symm
    · rw [List.map_map]
      exact List.nodup_range.map hinjective
  · simp

/-! ## What is kept -/

theorem Renders.exists_of_mem {files : FileStore} {paths : List String}
    {albums : List (List (String × Image))} {album : List (String × Image)}
    (h : List.Forall₂ (o.Renders files) paths albums) (halbum : album ∈ albums) :
    ∃ path, o.Renders files path album := by
  induction h with
  | nil => cases halbum
  | cons hfirst hrest ih =>
    rcases List.mem_cons.1 halbum with rfl | hmem
    · exact ⟨_, hfirst⟩
    · exact ih hmem

/-- **A picture is kept unless a later sketch has one in the same place.** When rendering succeeds,
every sketch file has been read and run. The image of its sketch and, if frames are written too, the
image of every frame have files of their own, and each of these files holds its picture at the end,
except where the album of a sketch rendered later has a picture in the same place. -/
theorem run_keeps_last {w w' : World}
    (h : (o.run : Task (StateM World) Unit).run w = (.ok (), w')) :
    ∃ albums : List (List (String × Image)),
      List.Forall₂ (fun path album => ∃ text s r,
        w.files.HoldsText (w.files.place path) text ∧ Sketch.ofText text = .ok s ∧
          o.album s = .ok album ∧ s.run (if o.frames then .keep else .skip) = .ok r ∧
            album.map Prod.fst = o.imagePath s ::
              (if o.frames then (List.range r.frames).map (o.framePath s) else []) ∧
            (album.map fun q => w.files.place q.1).Nodup) (w.sketchFiles o.paths) albums ∧
      ∀ earlier album later, albums = earlier ++ album :: later → ∀ q ∈ album,
        (∀ album' ∈ later, ∀ q' ∈ album', w.files.place q'.1 ≠ w.files.place q.1) →
          w'.files.get? (w.files.place q.1) = some (.file (.picture q.2)) := by
  obtain ⟨albums, halbums, hsaved⟩ := (run_spec h).2 rfl
  refine ⟨albums, halbums.imp ?_, fun earlier album later hsplit q hq hlater => ?_⟩
  · rintro path album ⟨text, s, htext, hsketch, halbum⟩
    obtain ⟨r, hr, hpaths⟩ := paths_of_album halbum
    exact ⟨text, s, r, htext, hsketch, halbum, hr, hpaths, nodup_places w.files halbum⟩
  · obtain ⟨path, text, s, -, -, halbum⟩ :=
      Renders.exists_of_mem halbums (hsplit ▸ List.mem_append_right _ List.mem_cons_self)
    have hnodup := nodup_places w.files halbum
    obtain ⟨before, after, rfl⟩ := List.append_of_mem hq
    refine hsaved.saved (earlier.flatten ++ before) q (after ++ later.flatten)
      (by simp [hsplit]) fun q' hq' => ?_
    rcases List.mem_append.1 hq' with hafter | hflatten
    · -- another picture of the same sketch
      rw [List.map_append, List.map_cons] at hnodup
      have hnot := (List.nodup_cons.1 (List.nodup_append.1 hnodup).2.1).1
      exact fun heq => hnot (List.mem_map.2 ⟨q', hafter, heq⟩)
    · obtain ⟨album', halbum', hq'⟩ := List.mem_flatten.1 hflatten
      exact hlater album' halbum' q' hq'

/-! ### Two sketches of one name -/

/-- Rendering goes well, and the world that it leaves passes a test. -/
def leaves (o : RenderOptions) (w : World) (test : World → Bool) : Bool :=
  let outcome := (o.run : Task (StateM World) Unit).run w
  outcome.1.isOk && test outcome.2

theorem exists_of_leaves {w : World} {test : World → Bool} (h : o.leaves w test = true) :
    ∃ w', (o.run : Task (StateM World) Unit).run w = (.ok (), w') ∧ test w' = true := by
  obtain ⟨hok, htest⟩ := Bool.and_eq_true_iff.1 h
  refine ⟨_, Prod.ext ?_ rfl, htest⟩
  cases hresult : ((o.run : Task (StateM World) Unit).run w).1 with
  | ok u => rfl
  | error e =>
    rw [hresult] at hok
    cases hok

/-- The text of a sketch that is one pixel of its background. -/
def pixelText (name background : String) : String :=
  "name: " ++ name ++ "\ncanvas:\n  width: 1\n  height: 1\n  background: '" ++ background ++ "'\n"

/-- A red sketch and a blue one in files of their own, both with the name `twin`. -/
def twins : World where
  files := { nodes := [
    (["red.sketch.yaml"], .file (.bytes (pixelText "twin" "#FF0000").toUTF8)),
    (["blue.sketch.yaml"], .file (.bytes (pixelText "twin" "#0000FF").toUTF8))] }

def renderTwins : RenderOptions where
  paths := ["red.sketch.yaml", "blue.sketch.yaml"]
  frames := true

/-- What is printed when both are rendered. -/
def twinsReport : String :=
  "  twin -> dist/twin.png (0 frame(s))\n  twin -> dist/twin.png (0 frame(s))\n" ++
    "Rendered 2 sketch(es) to dist\n"

/-- Both are rendered, and what there is of pictures is blue. -/
theorem run_twins : ∃ w', (renderTwins.run : Task (StateM World) Unit).run twins = (.ok (), w') ∧
    w'.printed = twinsReport ∧ (w'.files.picture? ["dist", "twin.png"]).isSome ∧
      ∀ l image, w'.files.get? l = some (.file (.picture image)) →
        image.pixel? 0 0 = some ⟨0, 0, 255, 255⟩ := by
  have hleaves : renderTwins.leaves twins (fun w' => decide (w'.printed = twinsReport) &&
      ((w'.files.picture? ["dist", "twin.png"]).isSome && w'.files.nodes.all fun e =>
        (w'.files.picture? e.1).all fun image => image.pixel? 0 0 = some ⟨0, 0, 255, 255⟩)) =
      true := by decide +kernel
  obtain ⟨w', hrun, htest⟩ := exists_of_leaves hleaves
  obtain ⟨hprinted, hpictures⟩ := Bool.and_eq_true_iff.1 htest
  obtain ⟨hpicture, hnodes⟩ := Bool.and_eq_true_iff.1 hpictures
  refine ⟨w', hrun, of_decide_eq_true hprinted, hpicture, fun l image himage => ?_⟩
  have hblue := List.all_eq_true.1 hnodes _ (FileStore.mem_nodes_of_get? himage)
  simpa [FileStore.picture?_eq_some.2 himage] using hblue

theorem run_keeps_last_twins : ∃ (w' : World) (albums : List (List (String × Image))),
    (renderTwins.run : Task (StateM World) Unit).run twins = (.ok (), w') ∧
      albums.length = 2 ∧ ∀ earlier album, albums = earlier ++ [album] → ∀ q ∈ album,
        w'.files.get? (twins.files.place q.1) = some (.file (.picture q.2)) := by
  obtain ⟨w', hrun, -⟩ := run_twins
  obtain ⟨albums, hread, hkept⟩ := run_keeps_last hrun
  have hfiles : (twins.sketchFiles renderTwins.paths).length = 2 := by decide
  exact ⟨w', albums, hrun, hread.length_eq.symm.trans hfiles, fun earlier album hsplit q hq =>
    hkept earlier album [] hsplit q hq nofun⟩

/-- The picture of a sketch that is reported as rendered may be lost, if a later sketch has its
name. -/
theorem run_loses_twin : ∃ w' s image,
    (renderTwins.run : Task (StateM World) Unit).run twins = (.ok (), w') ∧
      w'.printed = twinsReport ∧
      twins.sketchFiles renderTwins.paths = ["red.sketch.yaml", "blue.sketch.yaml"] ∧
      twins.files.HoldsText (twins.files.place "red.sketch.yaml") (pixelText "twin" "#FF0000") ∧
      Sketch.ofText (pixelText "twin" "#FF0000") = .ok s ∧
      renderTwins.album s = .ok [(renderTwins.imagePath s, image)] ∧
      ∀ l, w'.files.get? l ≠ some (.file (.picture image)) := by
  have halbum : ((Sketch.ofText (pixelText "twin" "#FF0000")).toOption.any fun s =>
      (renderTwins.album s).toOption.any fun pictures =>
        decide (pictures.map Prod.fst = [renderTwins.imagePath s]) &&
          pictures.all fun q => q.2.pixel? 0 0 = some ⟨255, 0, 0, 255⟩) = true := by
    decide +kernel
  cases hsketch : Sketch.ofText (pixelText "twin" "#FF0000") with
  | error e =>
    rw [hsketch] at halbum
    cases halbum
  | ok s =>
    rw [hsketch] at halbum
    cases hpictures : renderTwins.album s with
    | error e => simp [Except.toOption, hpictures] at halbum
    | ok pictures =>
      obtain ⟨⟨path, image⟩, rfl, hpath, hred⟩ : ∃ q, pictures = [q] ∧
          q.1 = renderTwins.imagePath s ∧ q.2.pixel? 0 0 = some ⟨255, 0, 0, 255⟩ := by
        simp only [Except.toOption, hpictures, Option.any_some, Bool.and_eq_true,
          decide_eq_true_eq] at halbum
        obtain ⟨q, rfl, hpath⟩ := List.map_eq_singleton_iff.1 halbum.1
        exact ⟨q, rfl, hpath, by simpa using halbum.2⟩
      obtain rfl : path = renderTwins.imagePath s := hpath
      have hplace : twins.files.place "red.sketch.yaml" = ["red.sketch.yaml"] := by decide +kernel
      have htext : twins.files.HoldsText ["red.sketch.yaml"] (pixelText "twin" "#FF0000") :=
        ⟨(pixelText "twin" "#FF0000").toUTF8, rfl, by decide⟩
      obtain ⟨w', hrun, hprinted, -, hblue⟩ := run_twins
      refine ⟨w', s, image, hrun, hprinted, by decide, hplace ▸ htext, rfl, hpictures,
        fun l hl => ?_⟩
      have hsame := (hblue l image hl).symm.trans hred
      exact absurd hsame (by decide)

end Easel.Command.RenderOptions
