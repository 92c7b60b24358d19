import Easel.Command.Check
import Easel.Command.Inspect
import Easel.Command.Render
import Easel.Command.Usage

/-!
# Command lines

The commands with their options, and how they are given as words.
-/

namespace Easel.Command

open Usage

/-- A command with its options. -/
inductive Request where
  | render (o : RenderOptions)
  | check (o : CheckOptions)
  | inspect (o : InspectOptions)
  /-- Lists the natives whose names start like this. -/
  | natives (start : String)
  /-- Prints the words that a shell can complete. -/
  | completions (shell : String)
  deriving DecidableEq, Repr

/-- A command line. -/
structure Invocation where
  /-- How much to tell about what goes on. -/
  verbosity : Nat
  request : Request
  deriving DecidableEq, Repr

namespace Invocation

/-! ## Shapes -/

def verbose : Switch := { long := "verbose", short := some 'v', kind := .counter }

def help : Switch := { long := "help", short := some 'h', kind := .fault .helpWanted }

def version : Switch := { long := "version", short := some 'V', kind := .fault .versionWanted }

/-- The shells that there are completions for. -/
def shells : List String := ["bash", "elvish", "fish", "powershell", "zsh"]

/-- A command: its name, the shape of its words and what they mean. -/
structure Entry where
  name : String
  shape : Shape
  request : Matched → Request

def flag (long : String) : Switch := { long, kind := .flag }

/-- The only operand, if there is one. -/
def operand (m : Matched) : String := (m.operands.head?).getD ""

def entries : List Entry := [
  { name := "render"
    shape := {
      switches := [{ long := "output", short := some 'o', kind := .value .path },
        { long := "scale", kind := .value .word32 }, flag "frames", flag "no-check", verbose, help]
      operands := ⟨.path, true, true⟩ }
    request := fun m => .render {
      paths := m.operands
      output := (m.value? "output").getD "dist"
      scale := ((m.value? "scale").bind word32?).getD 1
      frames := m.has "frames"
      checked := !m.has "no-check" } },
  { name := "check"
    shape := { switches := [flag "strict", verbose, help], operands := ⟨.path, true, true⟩ }
    request := fun m => .check { paths := m.operands, strict := m.has "strict" } },
  { name := "inspect"
    shape := { switches := [flag "compact", verbose, help], operands := ⟨.path, true, false⟩ }
    request := fun m => .inspect { file := operand m, compact := m.has "compact" } },
  { name := "natives"
    shape := { switches := [verbose, help], operands := ⟨.text, false, false⟩ }
    request := fun m => .natives (operand m) },
  { name := "completions"
    shape := { switches := [verbose, help], operands := ⟨.oneOf shells, true, false⟩ }
    request := fun m => .completions (operand m) }]

def named? (name : String) : Option Entry := entries.find? fun e => e.name == name

/-! ## Reading -/

/-- The shape of the words before the command. -/
def outer : Shape := { switches := [verbose, help, version], operands := ⟨.text, false, true⟩ }

/-- The words after the command `help` name a command, and nothing below it. -/
def helpOn (words : List String) : Fault :=
  match words with
  | [] => .helpWanted
  | [name] => if (named? name).isSome || name = "help" then .helpWanted else .unknownCommand
  | _ => .unknownCommand

/-- Reads the words of a command. Its own verbosity goes before the one given before the command. -/
def ofCommand (verbosity : Nat) (name : String) (words : List String) :
    Except Fault Invocation := do
  if name = "help" then throw (helpOn words)
  match named? name with
  | none => throw .unknownCommand
  | some e =>
    let m ← e.shape.ofWords words
    let own := min (m.count "verbose") 255
    return ⟨if own = 0 then verbosity else own, e.request m⟩

/-- Reads the words of a command line: switches, the command, and its own words. -/
def ofWordsAfter (m : Matched) : List String → Except Fault Invocation
  | [] => .error (if m.given.isEmpty then .nothingGiven else .commandMissing)
  | word :: rest =>
    match word.toList with
    | ['-', '-'] => match rest with
      | [] => .error (if m.given.isEmpty then .nothingGiven else .commandMissing)
      | name :: _ =>
        .error (if (named? name).isSome || name = "help" then .unknownWord else .unknownCommand)
    | '-' :: '-' :: name => do ofWordsAfter (← outer.takeLong m name) rest
    | '-' :: c :: cs => do ofWordsAfter (← outer.takeShort m (c :: cs)) rest
    | _ => ofCommand (min (m.count "verbose") 255) word rest

/-- Reads a command line. -/
def ofWords (words : List String) : Except Fault Invocation := ofWordsAfter {} words

end Invocation

end Easel.Command
