import Easel.Colour.Hex
import Easel.Script.Signature

/-!
# Errors

Every way in which making, running or drawing a sketch can fail, as a cause. `Error.message` and
`Error.help` put a cause into words. Faults of the bridge between scripts and natives are the only
errors from which a script cannot recover.
-/

namespace Easel

/-- A disagreement between a native, its signatures and the stack. -/
inductive BridgeFault where
  /-- A call wants more arguments than the stack holds values. -/
  | underflow (wanted depth : Nat)
  /-- Another value, shown as `found`, lies where the placeholder of the call should be. -/
  | wrongPlaceholder (callee found : String)
  | missingPlaceholder (callee : String)
  | wrongResult (callee : String) (got promised : ValueType)
  | argumentCount (callee : String) (wanted got : Nat)
  | argumentType (callee param : String) (wanted got : ValueType)
  | noArgument (callee : String) (index : Nat)
  | wrongArgument (callee : String) (index : Nat) (wanted : String) (got : ValueType)
  | wrongReceiver (wanted got : ObjectClass)
  /-- A reference to an object that was never made. -/
  | danglingReference
  deriving DecidableEq, Repr

def BridgeFault.message : BridgeFault → String
  | underflow wanted depth =>
    s!"stack underflow: call needs {wanted} argument(s), stack holds {depth}"
  | wrongPlaceholder callee found =>
    s!"{callee}: expected callable placeholder under the arguments, found {found}"
  | missingPlaceholder callee => s!"{callee}: stack underflow reading callable placeholder"
  | wrongResult callee got promised =>
    s!"{callee} returned {got} but its signature promises {promised}"
  | argumentCount callee wanted got =>
    s!"{callee}: resolved {wanted} parameter(s) but popped {got} value(s)"
  | argumentType callee param wanted got =>
    callee ++ ": parameter '" ++ param ++ "' expects " ++ wanted.name ++ ", popped " ++ got.name
  | noArgument callee index => s!"{callee}: no argument at position {index}"
  | wrongArgument callee index wanted got =>
    s!"{callee}: argument {index} should be {wanted}, got {got}"
  | wrongReceiver wanted got => s!"receiver should be {wanted}, got {got}"
  | danglingReference => "reference to an object that was never made"

/-- Why a text does not mean what it should. -/
inductive ParseFault where
  | hex (fault : HexFault)
  | background (text : String)
  | sketch (reason : String)
  /-- The text of a sketch holds no data at all. -/
  | malformed
  deriving DecidableEq, Repr

namespace ParseFault

def message : ParseFault → String
  | hex (.shape text) => "Invalid hex colour: " ++ text
  | hex (.digit c) => "Invalid hex digit: " ++ String.ofList [c]
  | hex (.byte pair) => "Invalid hex byte: " ++ pair
  | hex .insideCharacter => "Hex byte begins or ends inside a character"
  | background text => "Invalid canvas background '" ++ text ++ "'"
  | sketch reason => "Invalid sketch: " ++ reason
  | malformed => "Invalid sketch: malformed YAML"

def help : ParseFault → Option String
  | hex (.shape _) => some "Use #RGB, #RRGGBB, or #RRGGBBAA format"
  | hex _ => none
  | background _ => some "Use a hex colour such as \"#FFFFFF\""
  | sketch _ | malformed => some "A sketch needs a name and a list of steps"

end ParseFault

/-- Why something cannot be built from its parts. -/
inductive BuildFault where
  | noSignatures
  /-- Two overloads have the same parameter types. -/
  | ambiguous (earlier later : Signature)
  | oversizeCanvas (width height scale limit : Nat)
  | noSketches
  | checksFailed (sketch : String)
  | sketchesFailed (failed total : Nat)
  /-- A failure that a native reports in its own words. -/
  | reported (message : String) (help : Option String)
  deriving DecidableEq, Repr

namespace BuildFault

def message : BuildFault → String
  | noSignatures => "Overload set has no signatures"
  | ambiguous earlier later => s!"Ambiguous overloads {earlier.text} and {later.text}"
  | oversizeCanvas width height scale limit =>
    s!"Canvas {width}x{height} at scale {scale} is larger than {limit} pixels a side"
  | noSketches => "No sketches found"
  | checksFailed sketch => "Sketch '" ++ sketch ++ "' failed its checks"
  | sketchesFailed failed total => s!"{failed} of {total} sketch(es) failed"
  | reported message _ => message

def help : BuildFault → Option String
  | noSignatures => none
  | ambiguous _ _ => some "Overloads must differ in their parameter types"
  | oversizeCanvas _ _ _ _ => some "Use a smaller canvas or --scale"
  | noSketches => some "Sketch files end in .sketch.yaml"
  | checksFailed _ => some "Fix the errors above or pass --no-check"
  | sketchesFailed _ _ => none
  | reported _ help => help

end BuildFault

/-- Why a file operation fails. -/
inductive FileFault where
  | notFound
  | alreadyExists
  | isDirectory
  | notDirectory
  | notText
  | nameTooLong
  /-- A name holds a character that no name can hold. -/
  | badName
  /-- A picture without columns has no file form. -/
  | zeroWidth
  | zeroHeight
  /-- The name of a picture file has no extension to tell its form. -/
  | unknownFormat
  | other (reason : String)
  deriving DecidableEq, Repr

def FileFault.message : FileFault → String
  | notFound => "No such file or directory (os error 2)"
  | alreadyExists => "File exists (os error 17)"
  | isDirectory => "Is a directory (os error 21)"
  | notDirectory => "Not a directory (os error 20)"
  | notText => "stream did not contain valid UTF-8"
  | nameTooLong => "File name too long (os error 36)"
  | badName => "file name contained an unexpected NUL byte"
  | zeroWidth => "Zero width not allowed"
  | zeroHeight => "Zero height not allowed"
  | unknownFormat => "The image format could not be determined"
  | other reason => reason

/-- What was being done to a file. -/
inductive FileAction where
  | readSketch
  | createDirectory
  | writePicture
  deriving DecidableEq, Repr

def FileAction.failure : FileAction → String
  | readSketch => "Failed to read sketch"
  | createDirectory => "Failed to create output directory"
  | writePicture => "Failed to write PNG"

/-- The errors of the library. -/
inductive Error where
  /-- No overload matches the argument types. -/
  | typeMismatch (name : String) (attempted : List ValueType) (available : List Signature)
  | internal (fault : BridgeFault)
  | unknownCallable (name : String) (suggestion : Option String)
  | unknownBinding (name : String)
  | unknownField (owner : ObjectClass) (field : String) (known : List String)
  | io (path : String) (action : FileAction) (fault : FileFault)
  | parse (fault : ParseFault)
  | build (fault : BuildFault)
  deriving DecidableEq, Repr

namespace Error

def message : Error → String
  | typeMismatch name attempted _ =>
    s!"No overload of {name} accepts ({ValueType.listing attempted})"
  | internal fault => "Internal error: " ++ fault.message
  | unknownCallable name _ => "Unknown callable: " ++ name
  | unknownBinding name => "Undefined binding: $" ++ name
  | unknownField owner field _ => owner.name ++ " has no field '" ++ field ++ "'"
  | io path action fault => s!"IO error with {path}: {action.failure}: {fault.message}"
  | parse fault => "Parse error: " ++ fault.message
  | build fault => "Build error: " ++ fault.message

/-- Advice for the author of the script. -/
def help : Error → Option String
  | typeMismatch name _ available => some (Signature.describe name available)
  | internal _ => none
  | unknownCallable _ suggestion => suggestion.map fun c => "did you mean '" ++ c ++ "'?"
  | unknownBinding _ => none
  | unknownField _ _ known => some ("fields: " ++ ", ".intercalate known)
  | io _ _ _ => none
  | parse fault => fault.help
  | build fault => fault.help

/-- Whether a script can be told of the error and go on. -/
def isRecoverable : Error → Bool
  | internal _ => false
  | _ => true

end Error

/-- What goes well in two parts goes well in each. -/
theorem bind_eq_ok {ε α β : Type} {x : Except ε α} {f : α → Except ε β} {b : β} :
    (x >>= f) = .ok b ↔ ∃ a, x = .ok a ∧ f a = .ok b := by
  cases x with
  | error e => simp [Bind.bind, Except.bind]
  | ok a => simp [Bind.bind, Except.bind]

end Easel
