import Easel.Canvas.Raster
import Easel.Geometry.Triangle
import Easel.Natives.Registry
import Easel.Number.Word
import Easel.Sketch.Basic

/-!
# Checking a sketch

Checks look for faults without running anything: in the canvas, in the calls, in repetitions, in
how often generators are stepped, and in the seeds of fractals. The types of bindings come from the
result types of the overloads that the calls match.
-/

namespace Easel

inductive Severity where
  | warning
  | error
  deriving DecidableEq, Repr

def Severity.name : Severity → String
  | warning => "warning"
  | error => "error"

/-- What a check finds. -/
inductive Finding where
  | emptyCanvas (width height : Nat)
  | oversizeCanvas (width height : Nat)
  | badBackground (text : String)
  | undefinedBinding (name : String)
  | unknownCallable (name : String) (suggestion : Option String)
  | typeMismatch (call : String) (attempted : List ValueType) (available : List Signature)
  | bindsNothing (call name : String)
  | unusedBinding (name : String)
  | zeroRepeat (call : String)
  | deepGeneration (name : String) (generations limit : Nat)
  | degenerateSeed
  deriving DecidableEq, Repr

namespace Finding

def severity : Finding → Severity
  | emptyCanvas _ _ => .error
  | oversizeCanvas _ _ => .error
  | badBackground _ => .error
  | undefinedBinding _ => .error
  | unknownCallable _ _ => .error
  | typeMismatch _ _ _ => .error
  | bindsNothing _ _ => .warning
  | unusedBinding _ => .warning
  | zeroRepeat _ => .warning
  | deepGeneration _ _ _ => .warning
  | degenerateSeed => .warning

/-- The last part of the code. -/
def slug : Finding → String
  | emptyCanvas _ _ => "empty-canvas"
  | oversizeCanvas _ _ => "oversize-canvas"
  | badBackground _ => "bad-background"
  | undefinedBinding _ => "undefined-binding"
  | unknownCallable _ _ => "unknown-callable"
  | typeMismatch _ _ _ => "type-mismatch"
  | bindsNothing _ _ => "binds-nothing"
  | unusedBinding _ => "unused-binding"
  | zeroRepeat _ => "zero-repeat"
  | deepGeneration _ _ _ => "deep-generation"
  | degenerateSeed => "degenerate-seed"

/-- The code by which programs know the finding. -/
def code (f : Finding) : String := "sketchpad::check::" ++ f.slug

def message : Finding → String
  | emptyCanvas width height => s!"Canvas is {width}x{height}"
  | oversizeCanvas width height => s!"Canvas is {width}x{height}"
  | badBackground text => (ParseFault.background text).message
  | undefinedBinding name => "$" ++ name ++ " is used before it is bound"
  | unknownCallable name _ => "'" ++ name ++ "' is not a registered native"
  | typeMismatch call attempted available => (Error.typeMismatch call attempted available).message
  | bindsNothing call name => call ++ " returns Nothing; $" ++ name ++ " will hold Nothing"
  | unusedBinding name => "$" ++ name ++ " is bound but never used"
  | zeroRepeat call => call ++ " has `repeat: 0` and never runs"
  | deepGeneration name generations _ =>
    "$" ++ name ++ s!" reaches generation {generations}; output grows threefold per step"
  | degenerateSeed => "Sierpinski seed has no area; subdivisions will be NaN"

def help : Finding → Option String
  | emptyCanvas _ _ => some "Give the canvas a non-zero width and height"
  | oversizeCanvas _ _ => some s!"Keep each side at or below {Raster.maxSide} units"
  | badBackground text => (ParseFault.background text).help
  | undefinedBinding name => some ("Add `let: " ++ name ++ "` to an earlier step")
  | unknownCallable _ suggestion => suggestion.map fun c => "did you mean '" ++ c ++ "'?"
  | typeMismatch call attempted available => (Error.typeMismatch call attempted available).help
  | bindsNothing _ _ => none
  | unusedBinding _ => some "Prefix the name with '_' to keep it anyway"
  | zeroRepeat _ => none
  | deepGeneration _ _ limit => some s!"Keep generators to {limit} steps or fewer"
  | degenerateSeed => some "Use three points that are not on one line"

end Finding

/-- A finding, and the index of the step it is about if it is about one. -/
structure Diagnostic where
  finding : Finding
  step : Option Nat := none
  deriving DecidableEq, Repr

def Diagnostic.severity (d : Diagnostic) : Severity := d.finding.severity

namespace Sketch

/-! ## The canvas -/

/-- Finds fault with the size and the background of the canvas. -/
def checkCanvas (s : Sketch) : List Diagnostic :=
  let c := s.canvas
  let empty := if c.width = 0 ∨ c.height = 0 then [Finding.emptyCanvas c.width c.height] else []
  let oversize := if Raster.maxSide < c.width ∨ Raster.maxSide < c.height then
    [Finding.oversizeCanvas c.width c.height] else []
  let background := match c.colour with
    | .ok _ => []
    | .error _ => [Finding.badBackground c.background]
  (empty ++ oversize ++ background).map fun f => { finding := f }

/-! ## Calls -/

/-- What is known of the bindings before a step: a name that is bound has an entry, without a type
if the type could not be worked out. -/
abbrev TypeBindings := List (String × Option ValueType)

/-- What is known of the type of an argument. -/
inductive ArgType where
  | known (t : ValueType)
  | unknown
  /-- The argument names a binding that there is not. -/
  | undefined (name : String)
  deriving DecidableEq, Repr

def argType (types : TypeBindings) : Arg → ArgType
  | .number _ => .known .number
  | .colour _ => .known .colour
  | .text _ => .known .text
  | .binding name => match types.lookup name with
    | some (some t) => .known t
    | some none => .unknown
    | none => .undefined name

/-- The types of all arguments, if each is known. -/
def knownTypes : List ArgType → Option (List ValueType)
  | [] => some []
  | .known t :: rest => (knownTypes rest).map (t :: ·)
  | _ :: _ => none

/-- Checks the call of a step; gives its result type if the call matches an overload. -/
def checkCall (call : String) (args : List ArgType) : List Finding × Option ValueType :=
  match Natives.registry.get? call with
  | none => ([.unknownCallable call (Natives.registry.suggest? call)], none)
  | some f => match knownTypes args with
    | none => ([], none)
    | some types => match f.overloads.signatures.find? fun s => s.accepts types with
      | some s => ([], some s.result)
      | none => ([.typeMismatch call types f.overloads.signatures], none)

/-- Checks a step; gives what is known of the bindings after it. -/
def checkStep (types : TypeBindings) (s : Step) : List Finding × TypeBindings :=
  let args := s.args.map (argType types)
  let undefined := args.filterMap fun
    | .undefined name => some (Finding.undefinedBinding name)
    | _ => none
  let (found, result) := checkCall s.call args
  match s.bind with
  | none => (undefined ++ found, types)
  | some name =>
    let nothing := if result = some .nothing then [Finding.bindsNothing s.call name] else []
    (undefined ++ found ++ nothing, (name, result) :: types)

/-- Checks steps, the first of which has this index. -/
def checkSteps (types : TypeBindings) : Nat → List Step → List Diagnostic
  | _, [] => []
  | index, s :: rest =>
    let (found, types) := checkStep types s
    found.map (fun f => ⟨f, some index⟩) ++ checkSteps types (index + 1) rest

/-- Whether some step reads a binding of this name. -/
def reads (s : Sketch) (name : String) : Bool :=
  s.steps.any fun step => step.args.any fun
    | .binding n => n == name
    | _ => false

/-- Finds bindings whose names no step reads; names that start with `_` are let pass. -/
def checkUnused (s : Sketch) : List Diagnostic :=
  s.steps.zipIdx.filterMap fun (step, index) => match step.bind with
    | some name =>
      if !s.reads name && name.toList.head? != some '_' then
        some ⟨.unusedBinding name, some index⟩
      else none
    | none => none

/-- Follows the bindings through the steps and matches every call. -/
def checkCalls (s : Sketch) : List Diagnostic := checkSteps [] 0 s.steps ++ s.checkUnused

/-! ## Repetitions -/

/-- Finds steps that never run. -/
def checkRepeats (s : Sketch) : List Diagnostic :=
  s.steps.zipIdx.filterMap fun (step, index) =>
    if step.times = 0 then some ⟨.zeroRepeat step.call, some index⟩ else none

/-- The most generations that go without a warning; output triples with each. -/
def deepGenerations : Nat := 10

/-- The number at which counts of generations stop. -/
def maxGenerations : Nat := Word.values 32 - 1

/-- How often the generator bound to a name has been stepped, and whether that was warned of. -/
structure Depth where
  name : String
  generations : Nat
  flagged : Bool
  deriving DecidableEq, Repr

/-- The name whose generator a step advances, if it does. -/
def advances (s : Step) : Option String :=
  if ".next".toList.isSuffixOf s.call.toList then
    match s.args.head? with
    | some (.binding name) => some name
    | _ => none
  else none

/-- The count of a name, zero if it has not been stepped. -/
def depthOf (depths : List Depth) (name : String) : Depth :=
  (depths.find? fun d => d.name == name).getD ⟨name, 0, false⟩

/-- The counts of all other names. -/
def forget (depths : List Depth) (name : String) : List Depth :=
  depths.filter fun d => d.name != name

/-- Adds the generations of a step; there is a finding when a count first passes the limit. -/
def stepDepths (depths : List Depth) (s : Step) : List Finding × List Depth :=
  match advances s with
  | none => ([], depths)
  | some name =>
    let before := depthOf depths name
    let generations := min (before.generations + s.times) maxGenerations
    if deepGenerations < generations ∧ before.flagged = false then
      ([.deepGeneration name generations deepGenerations],
        ⟨name, generations, true⟩ :: forget depths name)
    else ([], ⟨name, generations, before.flagged⟩ :: forget depths name)

/-- Counts generations through steps, the first of which has this index. A name that is bound
afresh starts at zero. -/
def checkDepths (depths : List Depth) : Nat → List Step → List Diagnostic
  | _, [] => []
  | index, s :: rest =>
    let (found, depths) := stepDepths depths s
    let depths := match s.bind with
      | some name => forget depths name
      | none => depths
    found.map (fun f => ⟨f, some index⟩) ++ checkDepths depths (index + 1) rest

/-- Finds generators stepped so often that their output explodes. -/
def checkGenerationDepth (s : Sketch) : List Diagnostic := checkDepths [] 0 s.steps

/-! ## Seeds -/

/-- The seed of six literal numbers. -/
def literalSeed? : List Arg → Option (Triangle Float)
  | [.number x₁, .number y₁, .number x₂, .number y₂, .number x₃, .number y₃] =>
    some ⟨⟨x₁, y₁⟩, ⟨x₂, y₂⟩, ⟨x₃, y₃⟩⟩
  | _ => none

/-- Finds literal seeds without area. -/
def checkSeeds (s : Sketch) : List Diagnostic :=
  s.steps.zipIdx.filterMap fun (step, index) =>
    if step.call = "Sierp" ∧ (literalSeed? step.args).any Triangle.isDegenerate then
      some ⟨.degenerateSeed, some index⟩
    else none

/-- Everything the checks find. -/
def check (s : Sketch) : List Diagnostic :=
  s.checkCanvas ++ s.checkCalls ++ s.checkRepeats ++ s.checkGenerationDepth ++ s.checkSeeds

end Sketch

namespace Diagnostic

/-- How many diagnostics have this severity. -/
def count (ds : List Diagnostic) (severity : Severity) : Nat :=
  ds.countP fun d => d.severity == severity

def errors (ds : List Diagnostic) : Nat := count ds .error

def warnings (ds : List Diagnostic) : Nat := count ds .warning

end Diagnostic

end Easel
