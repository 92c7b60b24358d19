import Easel.Sketch.Basic
import Easel.Yaml.Reader

/-!
# Reading sketches

A sketch as YAML: a mapping with a name, and maybe a canvas and a list of steps. Other entries are
passed over.
-/

namespace Easel

open Yaml (Datum FieldReader ReadReason Reader Reading)

/-! ## Arguments -/

namespace Arg

/-- The argument that a number or a text stands for. -/
def ofDatum? : Datum → Option Arg
  | .atom (.int n) => some (.number (Float.ofInt n))
  | .atom (.float x) => some (.number x)
  | .atom (.text s) => some (ofText s)
  | _ => none

/-- Why other data are no argument. -/
def refusal (d : Datum) : String := "arguments must be numbers or strings, found " ++ d.print

/-- Reads an argument. A refusal is placed at the list around. -/
def reader : Reader Arg := fun s => do
  let d ← Reader.datum s
  match ofDatum? d with
  | some arg => return arg
  | none => Reading.fail (.refused (refusal d))

end Arg

/-- Counts and sizes have 32 bits. -/
def word32 : Reader Nat := Reader.natural (Word.values 32) "u32"

/-! ## Canvas -/

namespace Canvas

/-- The fields of a canvas that have been read. -/
structure Draft where
  width : Option Nat := none
  height : Option Nat := none
  background : Option String := none

def fields : List (FieldReader Draft) := [
  ⟨"width", fun d => d.width.isSome, fun d s => do return { d with width := ← word32 s }⟩,
  ⟨"height", fun d => d.height.isSome, fun d s => do return { d with height := ← word32 s }⟩,
  ⟨"background", fun d => d.background.isSome,
    fun d s => do return { d with background := ← Reader.text "a string" s }⟩]

/-- The canvas of a draft; absent fields are those of the standard canvas. -/
def Draft.finish (d : Draft) : Canvas :=
  let standard : Canvas := {}
  ⟨d.width.getD standard.width, d.height.getD standard.height,
    d.background.getD standard.background⟩

def reader : Reader Canvas :=
  Reader.record "struct CanvasConfig" fields {} fun d => .ok d.finish

end Canvas

/-! ## Steps -/

namespace Step

/-- The fields of a step that have been read. -/
structure Draft where
  call : Option String := none
  args : Option (List Arg) := none
  bind : Option (Option String) := none
  times : Option Nat := none

def fields : List (FieldReader Draft) := [
  ⟨"call", fun d => d.call.isSome,
    fun d s => do return { d with call := ← Reader.text "a string" s }⟩,
  ⟨"args", fun d => d.args.isSome,
    fun d s => do return { d with args := ← Reader.list Arg.reader s }⟩,
  ⟨"let", fun d => d.bind.isSome,
    fun d s => do return { d with bind := some (← Reader.optional (Reader.text "a string") s) }⟩,
  ⟨"repeat", fun d => d.times.isSome, fun d s => do return { d with times := ← word32 s }⟩]

/-- The step of a draft; it needs a call. -/
def Draft.finish (d : Draft) : Except ReadReason Step :=
  match d.call with
  | none => .error (.missingField "call")
  | some call =>
    .ok { call, args := d.args.getD [], bind := d.bind.join, times := d.times.getD 1 }

def reader : Reader Step := Reader.record "struct Step" fields {} Draft.finish

end Step

/-! ## Sketches -/

namespace Sketch

/-- The fields of a sketch that have been read. -/
structure Draft where
  name : Option String := none
  canvas : Option Canvas := none
  steps : Option (List Step) := none

def fields : List (FieldReader Draft) := [
  ⟨"name", fun d => d.name.isSome,
    fun d s => do return { d with name := ← Reader.text "a string" s }⟩,
  ⟨"canvas", fun d => d.canvas.isSome, fun d s => do return { d with canvas := ← Canvas.reader s }⟩,
  ⟨"steps", fun d => d.steps.isSome,
    fun d s => do return { d with steps := ← Reader.list Step.reader s }⟩]

/-- The sketch of a draft; it needs a name. -/
def Draft.finish (d : Draft) : Except ReadReason Sketch :=
  match d.name with
  | none => .error (.missingField "name")
  | some name => .ok { name, canvas := d.canvas.getD {}, steps := d.steps.getD [] }

def reader : Reader Sketch := Reader.record "struct Sketch" fields {} Draft.finish

/-- The sketch that a document holds. -/
def ofDocument (d : Yaml.Document) : Except Error Sketch :=
  match (reader { document := d, node := d.root }).run d.aliasLimit with
  | .ok (sketch, _) => .ok sketch
  | .error fault =>
    -- what holds no data at all is told apart from data of another form
    if d.data?.isSome then .error (.parse (.sketch fault.message)) else .error (.parse .malformed)

/-- Reads a sketch. -/
def ofText (text : String) : Except Error Sketch :=
  match Yaml.Document.ofText? text with
  | some d => ofDocument d
  | none => .error (.parse .malformed)

end Sketch

end Easel
