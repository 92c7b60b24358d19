import Easel.Command.Render
import Easel.Proofs.Files.Changes
import Easel.Proofs.Script.Action

/-!
# Commands on a world

What commands do on the host that is all data, as equations where they only look at the world, and
as what becomes of its files where they write.
-/

namespace Easel

variable {w w' : World}

namespace World

variable {α : Type}

/-- What is done on the host alone does not fail by itself. -/
theorem run_host (x : StateM World α) (w : World) :
    (liftM x : Task (StateM World) α).run w = (.ok (x.run w).1, (x.run w).2) := rfl

theorem run_bind {β : Type} (x : StateM World α) (k : α → StateM World β) (w : World) :
    (x >>= k).run w = (k (x.run w).1).run (x.run w).2 := rfl

theorem run_readText (path : String) (w : World) :
    (Host.readText path : StateM World _).run w = (w.files.readText path, w) := rfl

theorem run_isDirectory (path : String) (w : World) :
    (Host.isDirectory path : StateM World _).run w = (w.files.isDirectory path, w) := rfl

theorem run_makeDirectories (path : String) (w : World) :
    (Host.makeDirectories path : StateM World _).run w =
      ((FileStore.makeDirectories path.length path w.files).1,
        { w with files := (FileStore.makeDirectories path.length path w.files).2 }) := rfl

theorem run_print (text : String) (w : World) :
    (Host.print text : StateM World _).run w = ((), { w with printed := w.printed ++ text }) := rfl

theorem run_complain (text : String) (w : World) :
    (Host.complain text : StateM World _).run w =
      ((), { w with complained := w.complained ++ text }) := rfl

theorem run_write (path : String) (content : FileContent) (w : World) :
    (change fun files => files.write path content).run w = match w.files.write path content with
      | .ok files => (.ok (), { w with files })
      | .error fault => (.error fault, w) := rfl

/-- A file is written at the place of its path, or nothing happens. -/
theorem write_spec {path : String} {content : FileContent} {result : Except FileFault Unit}
    (h : (change fun files => files.write path content).run w = (result, w')) :
    FileStore.Spares (· = w.files.place path) w.files w'.files ∧
      (result = .ok () → w'.files.get? (w.files.place path) = some (.file content)) := by
  rw [run_write] at h
  split at h
  · rename_i files hwrite
    obtain ⟨rfl, rfl⟩ := Prod.mk.inj h
    exact ⟨FileStore.spares_write hwrite, fun _ => FileStore.get?_of_write hwrite⟩
  · obtain ⟨rfl, rfl⟩ := Prod.mk.inj h
    exact ⟨FileStore.Spares.refl _ _, nofun⟩

/-- The sketch files that paths on the command line stand for. -/
def sketchFiles (w : World) (paths : List String) : List String :=
  paths.flatMap fun path =>
    if w.files.isDirectory path then Sources.sketchesAmong path (w.files.filesBelow path)
    else [path]

end World

/-! ## Sources -/

namespace Sources

theorem run_expand (path : String) (w : World) :
    (expand path : StateM World _).run w =
      (if w.files.isDirectory path then sketchesAmong path (w.files.filesBelow path)
        else [path], w) := by
  rw [expand, World.run_bind]
  split
  · rename_i h
    rw [World.run_isDirectory] at h
    rw [if_pos h]
    rfl
  · rename_i h
    rw [World.run_isDirectory] at h
    rw [if_neg h]
    rfl

/-- Looking for sketch files changes nothing. -/
theorem run_expandAll (paths : List String) (w : World) :
    (expandAll paths : StateM World _).run w = (w.sketchFiles paths, w) := by
  have hmap : (paths.mapM expand : StateM World _).run w =
      (paths.map fun path => ((expand path : StateM World _).run w).1, w) := by
    induction paths with
    | nil => rfl
    | cons path paths ih =>
      simp only [List.mapM_cons, World.run_bind, run_expand, ih]
      rfl
  simp only [expandAll, World.run_bind, hmap, run_expand]
  rfl

/-- A sketch that is read is in the file at the place of its path, and reading changes nothing. -/
theorem load_spec {path : String} {result : Except Error Sketch}
    (h : (load path : Task (StateM World) Sketch).run w = (result, w')) :
    w' = w ∧ ∀ s, result = .ok s → ∃ text, w.files.HoldsText (w.files.place path) text ∧
      Sketch.ofText text = .ok s := by
  rw [load, Action.run_bind, World.run_host, World.run_readText] at h
  cases hread : w.files.readText path with
  | error fault =>
    simp only [hread] at h
    obtain ⟨rfl, rfl⟩ := Prod.mk.inj h
    exact ⟨rfl, nofun⟩
  | ok text =>
    simp only [hread, Action.run_lift] at h
    obtain ⟨rfl, rfl⟩ := Prod.mk.inj h
    exact ⟨rfl, fun s hs => ⟨text, FileStore.readText_eq_ok hread, hs⟩⟩

end Sources

/-! ## Pictures -/

namespace Command

variable {path : String} {image : Image}

theorem run_onFile (path : String) (action : FileAction)
    (operation : StateM World (Except FileFault Unit)) (w : World) :
    (onFile path action operation).run w =
      (match (operation.run w).1 with
        | .ok () => .ok ()
        | .error fault => .error (.io path action fault), (operation.run w).2) := by
  unfold onFile
  simp only [Action.run_bind, World.run_host]
  cases (operation.run w).1 <;> rfl

theorem writePicture_spec {result : Except FileFault Unit}
    (h : (writePicture path image : StateM World _).run w = (result, w')) :
    FileStore.Spares (· = w.files.place path) w.files w'.files ∧
      (result = .ok () → w'.files.get? (w.files.place path) = some (.file (.picture image))) := by
  unfold writePicture at h
  split at h
  · obtain ⟨rfl, rfl⟩ := Prod.mk.inj h
    exact ⟨FileStore.Spares.refl _ _, nofun⟩
  rw [World.run_bind] at h
  obtain ⟨created, w₁, hcreate⟩ :
      ∃ created w₁, (Host.create path : StateM World _).run w = (created, w₁) := ⟨_, _, rfl⟩
  have hcreated := (World.write_spec hcreate).1
  rw [hcreate] at h
  split at h
  · obtain ⟨rfl, rfl⟩ := Prod.mk.inj h
    exact ⟨hcreated, nofun⟩
  split at h
  · obtain ⟨rfl, rfl⟩ := Prod.mk.inj h
    exact ⟨hcreated, nofun⟩
  · have hwritten := World.write_spec h
    rw [FileStore.place_of_here hcreated.here] at hwritten
    exact ⟨hcreated.trans hwritten.1, hwritten.2⟩

/-- A picture is saved by writing it, after changes that spare all files. -/
theorem saves_of_write {w₁ : World} {result : Except Error Unit}
    (hbefore : FileStore.Spares (· = w.files.place path) w.files w₁.files)
    (h : (onFile path .writePicture (writePicture path image) : Task (StateM World) Unit).run w₁ =
      (result, w')) :
    FileStore.Spares (· = w.files.place path) w.files w'.files ∧
      (result = .ok () → FileStore.Saves [(path, image)] w.files w'.files) := by
  rw [run_onFile] at h
  obtain ⟨hresult, rfl⟩ := Prod.mk.inj h
  have hwritten := writePicture_spec
    (rfl : (writePicture path image : StateM World _).run w₁ = (_, _))
  rw [FileStore.place_of_here hbefore.here] at hwritten
  have hspares := hbefore.trans hwritten.1
  refine ⟨hspares, fun hok => ?_⟩
  refine ⟨hspares.mono fun l hl => ⟨_, List.mem_singleton_self _, hl.symm⟩, ?_⟩
  intro earlier q later hsplit _
  obtain ⟨rfl, rfl, rfl⟩ : earlier = [] ∧ q = (path, image) ∧ later = [] := by
    cases earlier <;> simp_all
  refine hwritten.2 ?_
  rw [hok] at hresult
  split at hresult
  · assumption
  · cases hresult

/-- A picture is saved at the place of its path, and no other file changes. -/
theorem savePicture_spec {result : Except Error Unit}
    (h : (savePicture path image : Task (StateM World) Unit).run w = (result, w')) :
    FileStore.Spares (· = w.files.place path) w.files w'.files ∧
      (result = .ok () → FileStore.Saves [(path, image)] w.files w'.files) := by
  have hnothing : FileStore.Spares (· = w.files.place path) w.files w.files := .refl _ _
  unfold savePicture at h
  split at h
  · rename_i parent _
    split at h
    · -- the directories around come first
      have hmade := FileStore.spares_makeDirectories (P := (· = w.files.place path))
        parent.length parent w.files
      rcases Action.run_bind_cases h with ⟨e, hmake, rfl⟩ | ⟨_, w₁, hmake, hwrite⟩
      · rw [run_onFile, World.run_makeDirectories] at hmake
        obtain ⟨-, rfl⟩ := Prod.mk.inj hmake
        exact ⟨hmade, nofun⟩
      · rw [run_onFile, World.run_makeDirectories] at hmake
        obtain ⟨-, rfl⟩ := Prod.mk.inj hmake
        exact saves_of_write hmade hwrite
    · exact saves_of_write hnothing h
  · exact saves_of_write hnothing h

end Command

end Easel
