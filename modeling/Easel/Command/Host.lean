import Easel.Files.Store

/-!
# Hosts

What a command needs of its surroundings: files, and two places to write text to. Commands are
written for any host. `World` is a host that is all data.
-/

namespace Easel

/-- The surroundings of a command, as actions of `m`. -/
class Host (m : Type → Type) where
  readText : String → m (Except FileFault String)
  isDirectory : String → m Bool
  /-- The names from a directory to each file below it. -/
  filesBelow : String → m (List (List String))
  /-- Makes a directory and the missing ones around it. -/
  makeDirectories : String → m (Except FileFault Unit)
  /-- Makes an empty file, in place of one that is there. -/
  create : String → m (Except FileFault Unit)
  /-- Writes a picture into a file. -/
  writePicture : String → Image → m (Except FileFault Unit)
  /-- Writes results. -/
  print : String → m Unit
  /-- Writes diagnostics. -/
  complain : String → m Unit

/-- What a command does on a host, or the error that ends it. -/
abbrev Task (m : Type → Type) := ExceptT Error m

/-- Files, and the text written so far. -/
structure World where
  files : FileStore := {}
  printed : String := ""
  complained : String := ""

namespace World

/-- Changes the files, unless that fails. -/
def change (f : FileStore → Except FileFault FileStore) : StateM World (Except FileFault Unit) :=
  modifyGet fun w => match f w.files with
    | .ok files => (.ok (), { w with files })
    | .error fault => (.error fault, w)

instance : Host (StateM World) where
  readText path := return (← get).files.readText path
  isDirectory path := return (← get).files.isDirectory path
  filesBelow path := return (← get).files.filesBelow path
  makeDirectories path := modifyGet fun w =>
    let (result, files) := FileStore.makeDirectories path.length path w.files
    (result, { w with files })
  create path := change fun files => files.write path (.bytes .empty)
  writePicture path image := change fun files => files.write path (.picture image)
  print text := modify fun w => { w with printed := w.printed ++ text }
  complain text := modify fun w => { w with complained := w.complained ++ text }

end World

end Easel
