import Easel.Command.Host
import Easel.Sketch.Read

/-!
# Sources

The sketch files that a command works on. A directory on the command line stands for the sketch
files below it, in the order of their names; any other path stands for itself.
-/

namespace Easel.Sources

/-- How the names of sketch files end. -/
def suffix : String := ".sketch.yaml"

/-- Whether a name is that of a sketch file: there is something before the suffix. -/
def isSketchName (name : String) : Bool :=
  suffix.toList.isSuffixOf name.toList && decide (suffix.length < name.length)

/-- Whether a path leads to a sketch file, going by its last name. -/
def isSketch (path : String) : Bool := (FilePath.fileName? path).any isSketchName

/-- The order of paths, name by name. -/
def comesBefore : List String → List String → Bool
  | [], _ => true
  | _ :: _, [] => false
  | a :: as, b :: bs => if a = b then comesBefore as bs else decide (a < b)

/-- The paths of the sketch files among files below a directory. -/
def sketchesAmong (directory : String) (files : List (List String)) : List String :=
  ((files.filter fun names => names.getLast?.any isSketchName).mergeSort comesBefore).map
    fun names => FilePath.join directory ("/".intercalate names)

variable {m : Type → Type} [Monad m] [Host m]

/-- The files that a path on the command line stands for. -/
def expand (path : String) : m (List String) := do
  if ← Host.isDirectory path then return sketchesAmong path (← Host.filesBelow path)
  else return [path]

/-- The files that paths on the command line stand for. -/
def expandAll (paths : List String) : m (List String) := do
  return (← paths.mapM expand).flatten

/-- Reads a sketch file. -/
def load (path : String) : Task m Sketch := do
  match ← (Host.readText path : m _) with
  | .ok text => Sketch.ofText text
  | .error fault => throw (.io path .readSketch fault)

end Easel.Sources
