/-!
# File paths

A path is text: names between slashes, from the root if it starts with one. Doubled slashes and
names `.` say nothing, except that `.` may be a path by itself.
-/

namespace Easel.FilePath

/-- The names between the slashes, empty ones left out. -/
def names : List Char → List (List Char)
  | [] => []
  | '/' :: rest => names rest
  | c :: rest =>
    match rest, names rest with
    | [], _ => [[c]]
    | '/' :: _, following => [c] :: following
    | _, name :: following => (c :: name) :: following
    | _, [] => [[c]]

def isAbsolute (path : String) : Bool := path.toList.head? == some '/'

/-- The names that a path leads along, `.` left out. -/
def steps (path : String) : List String :=
  ((names path.toList).filter (· ≠ ['.'])).map String.ofList

/-- Whether a path can only be a directory: it ends with a slash or the name `.`. -/
def endsInDirectory (path : String) : Bool :=
  match path.toList.reverse with
  | '/' :: _ => true
  | ['.'] => true
  | '.' :: '/' :: _ => true
  | _ => false

/-- The path `rest` as seen from `base`. -/
def join (base rest : String) : String :=
  if isAbsolute rest then rest
  else if base.isEmpty || base.toList.getLast? == some '/' then base ++ rest
  else base ++ "/" ++ rest

/-- A reversed path without what says nothing at its end. -/
def trimEnd : List Char → List Char
  | ['/'] => ['/']
  | '/' :: rest => trimEnd rest
  | '.' :: '/' :: rest => trimEnd ('/' :: rest)
  | path => path
termination_by path => path.length

/-- The path of the directory around: none for the root and for the empty path. -/
def parent? (path : String) : Option String :=
  match trimEnd path.toList.reverse with
  | [] => none
  | ['/'] => none
  | path => some (String.ofList (trimEnd (path.dropWhile (· ≠ '/'))).reverse)

/-- The last name of a path, if it is the name of a file or directory in the one around. -/
def fileName? (path : String) : Option String :=
  match (steps path).getLast? with
  | some ".." => none
  | name => name

/-- Whether the last name has an extension: a point that is not its first character. -/
def hasExtension (path : String) : Bool :=
  match fileName? path with
  | some name => name.toList.tail.contains '.'
  | none => false

end Easel.FilePath
