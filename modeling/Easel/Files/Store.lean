import Easel.Canvas.Image
import Easel.Error
import Easel.Files.Path

/-!
# Files

A tree of files and directories, with the directory that relative paths start from. A location
lists the names from the root; a path is followed name by name, `..` leading back.
-/

namespace Easel

/-- What a file holds. -/
inductive FileContent where
  | bytes (b : ByteArray)
  /-- A picture in a picture format. -/
  | picture (i : Image)

/-- A file or a directory. -/
inductive FileNode where
  | directory
  | file (content : FileContent)

/-- The names from the root. -/
abbrev Location := List String

/-- The files and directories below the root. -/
structure FileStore where
  nodes : List (Location × FileNode) := []
  /-- The current directory. -/
  here : Location := []

namespace FileStore

/-- What is at a location. -/
def get? (s : FileStore) (l : Location) : Option FileNode :=
  if l = [] then some .directory else s.nodes.lookup l

/-- The store with a node at a location, in place of what was there. -/
def put (s : FileStore) (l : Location) (node : FileNode) : FileStore :=
  { s with nodes := (l, node) :: s.nodes.filter fun e => e.1 != l }

def isDirectoryAt (s : FileStore) (l : Location) : Bool :=
  match s.get? l with
  | some .directory => true
  | _ => false

/-- The most bytes that a name has. -/
def maxName : Nat := 255

/-- The most bytes that a path has. -/
def maxPath : Nat := 4095

/-- Follows names from a directory. All but the last must lead to directories. -/
def follow (s : FileStore) : Location → List String → Except FileFault Location
  | l, [] => .ok l
  | l, name :: rest =>
    if name.utf8ByteSize > maxName then .error .nameTooLong
    else
      let next := if name = ".." then l.dropLast else l ++ [name]
      if rest = [] then .ok next
      else match s.get? next with
        | some .directory => s.follow next rest
        | some (.file _) => .error .notDirectory
        | none => .error .notFound

/-- The location that a path leads to; there may be nothing there. -/
def locate (s : FileStore) (path : String) : Except FileFault Location := do
  if path.isEmpty then throw .notFound
  if path.toList.contains '\x00' then throw .badName
  if path.utf8ByteSize > maxPath then throw .nameTooLong
  let l ← s.follow (if FilePath.isAbsolute path then [] else s.here) (FilePath.steps path)
  if FilePath.endsInDirectory path then
    if let some (.file _) := s.get? l then throw .notDirectory
  return l

/-- Whether there is a directory at a path. -/
def isDirectory (s : FileStore) (path : String) : Bool :=
  match s.locate path with
  | .ok l => s.isDirectoryAt l
  | .error _ => false

/-- The text in a file. -/
def readText (s : FileStore) (path : String) : Except FileFault String := do
  match s.get? (← s.locate path) with
  | none => throw .notFound
  | some .directory => throw .isDirectory
  | some (.file (.picture _)) => throw .notText
  | some (.file (.bytes b)) => match String.fromUTF8? b with
    | some text => return text
    | none => throw .notText

/-- The names from a directory to each file below it. -/
def filesBelow (s : FileStore) (path : String) : List (List String) :=
  match s.locate path with
  | .error _ => []
  | .ok l => s.nodes.filterMap fun
    | (k, .file _) => if l.isPrefixOf k && l.length < k.length then some (k.drop l.length) else none
    | (_, .directory) => none

/-- Makes a directory. -/
def makeDirectory (s : FileStore) (path : String) : Except FileFault FileStore := do
  let l ← s.locate path
  match s.get? l with
  | some _ => throw .alreadyExists
  | none => return s.put l .directory

/-- Makes a directory and the directories around it as far as they are missing; those that were
made stay even if a later one cannot be. -/
def makeDirectories : Nat → String → FileStore → Except FileFault Unit × FileStore
  | fuel, path, s =>
    if path.isEmpty then (.ok (), s)
    else match s.makeDirectory path with
      | .ok s => (.ok (), s)
      | .error fault =>
        if fault ≠ .notFound then (if s.isDirectory path then .ok () else .error fault, s)
        else match fuel, FilePath.parent? path with
          | fuel + 1, some parent =>
            match makeDirectories fuel parent s with
            | (.error fault, s) => (.error fault, s)
            | (.ok (), s) => match s.makeDirectory path with
              | .ok s => (.ok (), s)
              | .error fault => (if s.isDirectory path then .ok () else .error fault, s)
          | _, _ => (.error fault, s)

/-- Makes a file with this content, in place of one that is there. -/
def write (s : FileStore) (path : String) (content : FileContent) : Except FileFault FileStore := do
  let l ← s.locate path
  if s.isDirectoryAt l then throw .isDirectory
  return s.put l (.file content)

end FileStore

end Easel
