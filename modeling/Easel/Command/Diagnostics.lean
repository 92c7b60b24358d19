import Easel.Sketch.Check
import Easel.Text.Lines

/-!
# Printed diagnostics

The findings about a sketch as the command line shows them, with a verdict below.
-/

namespace Easel

namespace Diagnostic

/-- The finding on one line, and each line of advice on one of its own. -/
def text (d : Diagnostic) : String :=
  let place := match d.step with
    | some step => s!" step {step + 1}"
    | none => ""
  let advice := (d.finding.help.map fun help =>
    (Text.lines help.toList).map fun line => "    help: " ++ String.ofList line ++ "\n").getD []
  "  " ++ d.severity.name ++ "[" ++ d.finding.code ++ "]" ++ place ++ ": " ++ d.finding.message ++
    "\n" ++ String.join advice

/-- What the findings come to. -/
def verdict (ds : List Diagnostic) : String :=
  if errors ds > 0 then s!"Check failed: {errors ds} error(s), {warnings ds} warning(s)\n"
  else if warnings ds > 0 then s!"Check passed ({warnings ds} warning(s))\n"
  else "Check passed.\n"

/-- All findings and the verdict. -/
def summary (ds : List Diagnostic) : String := String.join (ds.map text) ++ verdict ds

end Diagnostic

end Easel
