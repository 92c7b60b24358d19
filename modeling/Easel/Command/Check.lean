import Easel.Command.Diagnostics
import Easel.Command.Sources

/-!
# Checking files

The command that checks sketch files and counts those that fail.
-/

namespace Easel.Command

/-- What to check. -/
structure CheckOptions where
  paths : List String
  /-- Warnings count as failures. -/
  strict : Bool := false
  deriving DecidableEq, Repr

namespace CheckOptions

/-- Whether a sketch with these findings fails. -/
def fails (o : CheckOptions) (ds : List Diagnostic) : Bool :=
  decide (0 < Diagnostic.errors ds) || (o.strict && decide (0 < Diagnostic.warnings ds))

variable {m : Type → Type} [Monad m] [Host m]

/-- Checks a file and says whether it passes. -/
def checkFile (o : CheckOptions) (path : String) : m Bool := do
  Host.complain (path ++ ":\n")
  match ← (Sources.load path : Task m Sketch).run with
  | .error e =>
    Host.complain ("  error: " ++ e.message ++ "\n")
    return false
  | .ok sketch =>
    let ds := sketch.check
    Host.complain (Diagnostic.summary ds)
    return !o.fails ds

/-- Checks all files; the command fails if one of them does. -/
def run (o : CheckOptions) : Task m Unit := do
  let files ← (Sources.expandAll o.paths : m _)
  let passed ← (files.mapM o.checkFile : m _)
  let failed := passed.count false
  if failed > 0 then throw (.build (.sketchesFailed failed files.length))
  else (Host.print s!"Checked {files.length} sketch(es).\n" : m _)

end CheckOptions

end Easel.Command
