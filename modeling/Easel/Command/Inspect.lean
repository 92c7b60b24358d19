import Easel.Command.Sources
import Easel.Sketch.Report

/-!
# Inspecting a file

The command that runs a sketch and prints what it put on its canvas.
-/

namespace Easel.Command

/-- What to inspect. -/
structure InspectOptions where
  file : String
  /-- The report is printed on one line. -/
  compact : Bool := false
  deriving DecidableEq, Repr

variable {m : Type → Type} [Monad m] [Host m]

def InspectOptions.run (o : InspectOptions) : Task m Unit := do
  let sketch ← Sources.load o.file
  let report ← (sketch.report : Except Error Json)
  let text := if o.compact then report.compact else report.pretty
  (Host.print (text ++ "\n") : m _)

end Easel.Command
