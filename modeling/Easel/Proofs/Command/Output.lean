import Easel.Proofs.Command.Rendering

/-!
# Where rendering writes

Rendering changes no file but those named for the sketches that it reads. They lie below the output
directory as long as the name of the sketch leads to something below the place it is seen from. Any
text can be the name of a sketch, so this need not be so: a name that leads back, or a path from the
root, leads out of the output directory.
-/

namespace Easel.Command.RenderOptions

variable {o : RenderOptions} {s : Sketch}

/-- **The pictures of a sketch belong below the output directory** if its name stays below the place
that it is seen from. -/
theorem NamedFor.below {files : FileStore} {l : Location} (h : o.NamedFor files s l)
    (hname : FilePath.staysBelow s.name = true) :
    ∃ inner, inner ≠ [] ∧ l = files.place o.output ++ inner := by
  obtain ⟨hrelative, hdescends⟩ := Bool.and_eq_true_iff.1 hname
  have hbase : o.base files s = files.place o.output :=
    if_neg (by simpa using hrelative)
  -- what is one name further in than names that do not lead out is below
  have hinner {names : List String} (name : String)
      (hnames : FilePath.staysBelow.descends 0 names = true) :
      ∃ inner, inner ≠ [] ∧
        (o.base files s).walk names ++ [name] = files.place o.output ++ inner := by
    obtain ⟨inner, hwalk⟩ := Location.prefix_walk (files.place o.output) [] hnames
    rw [List.append_nil] at hwalk
    exact ⟨inner ++ [name], by simp, by rw [hbase, ← hwalk, List.append_assoc]⟩
  rcases h with rfl | ⟨-, i, rfl⟩
  · obtain ⟨front, last, himage, hsteps⟩ := place_imagePath files o s
    rw [himage]
    refine hinner _ ?_
    rcases hsteps with ⟨hsteps, -⟩ | hsteps
    · exact hsteps ▸ hdescends
    · exact FilePath.staysBelow.descends_of_append (hsteps ▸ hdescends)
  · rw [place_framePath, place_directory]
    exact hinner _ hdescends

/-- **Rendering writes where the names of the sketches lead.** However rendering ends, a file that
is there afterwards and was not there with this content before belongs to a sketch that was read
from one of the sketch files. It is in the place of the image of the sketch or, if frames are
written too, of one of its frames, and below the output directory if the name of the sketch stays
below the place that it is seen from. -/
theorem run_writes_named {w w' : World} {result : Except Error Unit}
    (h : (o.run : Task (StateM World) Unit).run w = (result, w')) {l : Location}
    {content : FileContent} (hafter : w'.files.get? l = some (.file content))
    (hbefore : w.files.get? l ≠ some (.file content)) :
    ∃ path ∈ w.sketchFiles o.paths, ∃ text s,
      w.files.HoldsText (w.files.place path) text ∧ Sketch.ofText text = .ok s ∧
        (l = w.files.place (o.imagePath s) ∨
          o.frames = true ∧ ∃ i, l = w.files.place (o.framePath s i)) ∧
        (FilePath.staysBelow s.name = true →
          ∃ inner, inner ≠ [] ∧ l = w.files.place o.output ++ inner) := by
  by_cases howned : ∃ path ∈ w.sketchFiles o.paths, o.Owns w.files path l
  · obtain ⟨path, hpath, text, s, htext, hsketch, hl⟩ := howned
    exact ⟨path, hpath, text, s, htext, hsketch, hl, hl.below⟩
  · exact absurd ((run_spec h).1.file_of howned hafter) hbefore

theorem run_writes_named_twins : ∃ (w' : World) (content : FileContent),
    (renderTwins.run : Task (StateM World) Unit).run twins = (.ok (), w') ∧
      w'.files.get? ["dist", "twin.png"] = some (.file content) ∧
      twins.files.get? ["dist", "twin.png"] ≠ some (.file content) ∧
      ∃ path ∈ twins.sketchFiles renderTwins.paths, ∃ (text : String) (s : Sketch),
        twins.files.HoldsText (twins.files.place path) text ∧ Sketch.ofText text = .ok s ∧
          (["dist", "twin.png"] = twins.files.place (renderTwins.imagePath s) ∨
            ∃ i, ["dist", "twin.png"] = twins.files.place (renderTwins.framePath s i)) := by
  obtain ⟨w', hrun, -, hpicture, -⟩ := run_twins
  obtain ⟨image, himage⟩ := Option.isSome_iff_exists.1 hpicture
  have hafter := FileStore.picture?_eq_some.1 himage
  have hbefore : twins.files.get? ["dist", "twin.png"] ≠ some (.file (.picture image)) := nofun
  obtain ⟨path, hpath, text, s, htext, hsketch, hplace, -⟩ :=
    run_writes_named hrun hafter hbefore
  exact ⟨w', _, hrun, hafter, hbefore, path, hpath, text, s, htext, hsketch,
    hplace.imp_right And.right⟩

/-! ### Names that lead out -/

/-- Sketches of which the names lead back and to the root. -/
def strays : World where
  files := {
    nodes := [
      (["work"], .directory),
      (["work", "back.sketch.yaml"], .file (.bytes (pixelText "../escape" "#FF0000").toUTF8)),
      (["work", "root.sketch.yaml"],
        .file (.bytes (pixelText "/elsewhere/escape" "#FF0000").toUTF8))]
    here := ["work"] }

def renderStrays : RenderOptions where
  paths := ["back.sketch.yaml", "root.sketch.yaml"]

/-- Rendering makes files outside the output directory where names lead out of it. -/
theorem run_escapes : ∃ w',
    (renderStrays.run : Task (StateM World) Unit).run strays = (.ok (), w') ∧
    strays.files.place renderStrays.output = ["work", "dist"] ∧
    ∀ l ∈ [["work", "escape.png"], ["elsewhere", "escape.png"]],
      strays.files.get? l = none ∧ ∃ image, w'.files.get? l = some (.file (.picture image)) := by
  have hleaves : renderStrays.leaves strays (fun w' =>
      [["work", "escape.png"], ["elsewhere", "escape.png"]].all fun l =>
        (strays.files.get? l).isNone && (w'.files.picture? l).isSome) = true := by decide +kernel
  obtain ⟨w', hrun, htest⟩ := exists_of_leaves hleaves
  refine ⟨w', hrun, by decide +kernel, fun l hl => ?_⟩
  obtain ⟨hnone, hpicture⟩ := Bool.and_eq_true_iff.1 (List.all_eq_true.1 htest l hl)
  obtain ⟨image, himage⟩ := Option.isSome_iff_exists.1 hpicture
  exact ⟨Option.isNone_iff_eq_none.1 hnone, image, FileStore.picture?_eq_some.1 himage⟩

end Easel.Command.RenderOptions
