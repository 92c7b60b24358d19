import Easel.Command.Run
import Easel.Png.Encode

/-!
# The program

Reads the command line, carries the command out on the files of the machine, and reports an error
with its advice. The exit code is 0 for success, 1 for an error, and 2 for words that are no command
line.
-/

namespace Easel.Program

/-! ## The machine as a host -/

/-- The cause of a failed file operation. -/
def faultOf : IO.Error → FileFault
  | .noFileOrDirectory _ _ _ => .notFound
  | .alreadyExists _ _ _ => .alreadyExists
  | .inappropriateType _ 21 _ => .isDirectory
  | .inappropriateType _ 20 _ => .notDirectory
  | e => .other (toString e)

/-- Runs a file operation. -/
def attempt {α : Type} (action : IO α) : IO (Except FileFault α) := do
  match ← action.toBaseIO with
  | .ok a => return .ok a
  | .error e => return .error (faultOf e)

def isDirectory (path : String) : IO Bool := (System.mkFilePath [path]).isDir

/-- The names from a directory to each file below it. What cannot be read is left out. -/
partial def filesBelow (path : String) : IO (List (List String)) := do
  match ← (System.mkFilePath [path]).readDir.toBaseIO with
  | .error _ => return []
  | .ok entries =>
    let below ← entries.toList.mapM fun entry => do
      let inner := FilePath.join path entry.fileName
      if ← isDirectory inner then return (← filesBelow inner).map (entry.fileName :: ·)
      else return [[entry.fileName]]
    return below.flatten

/-- Actions on the machine, with how much to tell about them. -/
abbrev Shell := ReaderT Nat IO

/-- Tells of something if as much as `level` is to be told. -/
def tell (level : Nat) (text : String) : Shell Unit := do
  if level ≤ (← read) then (← IO.getStderr).putStr (text ++ "\n")

/-- The text of a file. -/
def readText (path : String) : IO (Except FileFault String) := do
  match ← attempt (IO.FS.readBinFile path) with
  | .error fault => return .error fault
  | .ok data => return match String.fromUTF8? data with
    | some text => .ok text
    | none => .error .notText

instance : Host Shell where
  readText path := do
    tell 1 ("reading " ++ path)
    readText path
  isDirectory path := isDirectory path
  filesBelow path := filesBelow path
  makeDirectories path := attempt (IO.FS.createDirAll path)
  create path := attempt (IO.FS.writeBinFile path .empty)
  writePicture path image := do
    tell 2 s!"writing {path}, {image.width}x{image.height}"
    attempt (IO.FS.writeBinFile path (Png.encode image))
  print text := do
    let out ← IO.getStdout
    out.putStr text
    out.flush
  complain text := do (← IO.getStderr).putStr text

/-! ## Reports -/

def version : String := "easel 0.1.0\n"

/-- What the program is told with. -/
def usage : String := "Generative vector art from sketches.

Usage: easel [-v...] COMMAND

Commands:
  render [-o DIR] [--scale N] [--frames] [--no-check] PATH...
      Run sketches and write PNG images
  check [--strict] PATH...
      Check sketches without running them
  inspect [--compact] FILE
      Run a sketch and print what it put on the canvas as JSON
  natives [PREFIX]
      List every registered native and its signatures
  completions SHELL
      Print a line for a shell that completes the commands
  help
      Print this text

Options:
  -v, --verbose   Tell of files read; given twice, also of files written
  -h, --help      Print this text
  -V, --version   Print the version
"

/-- What is wrong with words that are no command line. -/
def complaint : Usage.Fault → String
  | .helpWanted => usage
  | .versionWanted => version
  | .nothingGiven => usage
  | .commandMissing => "error: a command is wanted\n"
  | .unknownCommand => "error: there is no such command\n"
  | .operandMissing => "error: an operand is missing\n"
  | .unknownWord => "error: an option or operand is not known here\n"
  | .badNumber => "error: a number is malformed or out of range\n"
  | .badValue => "error: an option or operand has no value that is allowed\n"
  | .repeated => "error: an option is given again\n"
  | .surplusValue => "error: an option that takes no value has one\n"

/-- An error and its advice. -/
def report (e : Error) : String :=
  let advice := (e.help.map fun help => "  help: " ++ help ++ "\n").getD ""
  "Error: " ++ e.message ++ "\n" ++ advice

/-- Carries out a command line and gives the exit code. -/
def run (words : List String) : IO UInt32 := do
  match Command.Invocation.ofWords words with
  | .error f =>
    let out ← if f.isWanted then IO.getStdout else IO.getStderr
    out.putStr (complaint f)
    return f.exitCode.toUInt32
  | .ok invocation =>
    match ← (invocation.request.run : Task Shell Unit).run.run invocation.verbosity with
    | .ok () => return 0
    | .error e =>
      (← IO.getStderr).putStr (report e)
      return 1

end Easel.Program

def main (words : List String) : IO UInt32 := Easel.Program.run words
