import Easel.Number.Word
import Easel.Text.Digit

/-!
# Usage

The shape of a command line: switches, which may stand anywhere and may take a value, and operands.
`Usage.Shape.match?` sorts the words of a command line by it, in order, so that the first fault is
the one that counts. The last value that was given is looked at only when the next known word
comes, or the end.
-/

namespace Easel.Usage

/-- Why a command line is not carried out as it stands. -/
inductive Fault where
  | helpWanted
  | versionWanted
  /-- There are no words at all. -/
  | nothingGiven
  /-- There are switches and no command. -/
  | commandMissing
  | unknownCommand
  | operandMissing
  | unknownWord
  /-- A number has the wrong form or is out of range. -/
  | badNumber
  /-- A value is absent, empty or none of those allowed. -/
  | badValue
  /-- A switch that may be given once is given again. -/
  | repeated
  /-- A switch without value has one. -/
  | surplusValue
  deriving DecidableEq, Repr

namespace Fault

/-- Whether the user asked for it. -/
def isWanted : Fault → Bool
  | helpWanted => true
  | versionWanted => true
  | _ => false

/-- The exit code of a program that is called like this. -/
def exitCode (f : Fault) : Nat := if f.isWanted then 0 else 2

end Fault

/-! ## Values -/

/-- What a value has to be. -/
inductive ValueKind where
  /-- Any text but the empty one. -/
  | path
  | text
  | word32
  | oneOf (values : List String)
  deriving DecidableEq, Repr

/-- The number that decimal digits spell, after a sign maybe. -/
def number? (s : String) : Option Int :=
  match s.toList with
  | '+' :: cs => (Text.natural? 10 cs).map Int.ofNat
  | '-' :: cs => (Text.natural? 10 cs).map fun n => -Int.ofNat n
  | cs => (Text.natural? 10 cs).map Int.ofNat

/-- The number of 32 bits that a text spells. -/
def word32? (s : String) : Option Nat :=
  match number? s with
  | some n => if 0 ≤ n ∧ n < Word.values 32 then some n.toNat else none
  | none => none

/-- Whether a text is a value of the kind. -/
def ValueKind.check (kind : ValueKind) (s : String) : Except Fault Unit :=
  match kind with
  | path => if s.isEmpty then .error .badValue else .ok ()
  | text => .ok ()
  | word32 => if (word32? s).isSome then .ok () else .error .badNumber
  | oneOf values => if values.contains s then .ok () else .error .badValue

/-! ## Shapes -/

/-- What giving a switch means. -/
inductive SwitchKind where
  | flag
  /-- It may be given again, and counts. -/
  | counter
  | value (kind : ValueKind)
  | fault (f : Fault)
  deriving DecidableEq, Repr

/-- A switch: `--long`, or `-s` if it has a short form. -/
structure Switch where
  long : String
  short : Option Char := none
  kind : SwitchKind
  deriving DecidableEq, Repr

/-- The operands of a command. -/
structure Operands where
  kind : ValueKind
  required : Bool
  /-- There may be more than one. -/
  several : Bool
  deriving DecidableEq, Repr

/-- The shape of the words after a command. -/
structure Shape where
  switches : List Switch
  operands : Operands

/-- A value that has been read and not looked at. -/
inductive Pending where
  /-- A switch that wants a value, with the value once it is there. -/
  | switch (s : Switch) (kind : ValueKind) (value : Option String)
  | operands (values : List String)

/-- The words sorted so far. -/
structure Matched where
  /-- The switches given, with their values; a flag has an empty one. -/
  given : List (String × String) := []
  operands : List String := []
  pending : Option Pending := none

namespace Matched

/-- How often a switch is given. -/
def count (m : Matched) (long : String) : Nat := m.given.countP fun g => g.1 == long

def has (m : Matched) (long : String) : Bool := m.count long ≠ 0

/-- The value of a switch. -/
def value? (m : Matched) (long : String) : Option String := m.given.lookup long

/-- Adds a switch that may be given once. -/
def add (m : Matched) (s : Switch) (value : String) : Except Fault Matched :=
  if m.has s.long then .error .repeated
  else .ok { m with given := m.given ++ [(s.long, value)] }

/-- Adds a switch with its value. -/
def addValue (m : Matched) (s : Switch) (kind : ValueKind) (value : String) :
    Except Fault Matched := do
  let m ← m.add s value
  kind.check value
  return m

/-- Looks at what is pending. -/
def settle (m : Matched) (o : Operands) : Except Fault Matched :=
  match m.pending with
  | none => .ok m
  | some (.switch _ _ none) => .error .badValue
  | some (.switch s kind (some value)) => { m with pending := none }.addValue s kind value
  | some (.operands values) => do
    values.forM o.kind.check
    return { m with pending := none, operands := m.operands ++ values }

/-- How many operands there are, pending ones included. -/
def operandCount (m : Matched) : Nat :=
  m.operands.length + match m.pending with
    | some (.operands values) => values.length
    | _ => 0

/-- Takes an operand. -/
def addOperand (m : Matched) (o : Operands) (word : String) : Except Fault Matched :=
  if !o.several && m.operandCount ≠ 0 then .error .unknownWord
  else match m.pending with
    | some (.operands values) => .ok { m with pending := some (.operands (values ++ [word])) }
    | _ => do
      let m ← m.settle o
      return { m with pending := some (.operands [word]) }

/-- Takes a switch, with the value that is attached to it if there is one. -/
def addSwitch (m : Matched) (o : Operands) (s : Switch) (attached : Option String) :
    Except Fault Matched :=
  match s.kind, attached with
  | .value kind, some value => do (← m.settle o).addValue s kind value
  | .value kind, none => do return { ← m.settle o with pending := some (.switch s kind none) }
  | _, some _ => .error .surplusValue
  | .flag, none => do (← m.settle o).add s ""
  | .counter, none => do
    let m ← m.settle o
    return { m with given := m.given ++ [(s.long, "")] }
  | .fault f, none => do
    let _ ← m.settle o
    .error f

end Matched

namespace Shape

/-- The text before the first `=` and, if there is one, the text after it. -/
def splitValue (word : List Char) : String × Option String :=
  match word.dropWhile (· ≠ '=') with
  | [] => (String.ofList word, none)
  | _ :: value => (String.ofList (word.takeWhile (· ≠ '=')), some (String.ofList value))

/-- Takes a word after two dashes. -/
def takeLong (shape : Shape) (m : Matched) (word : List Char) : Except Fault Matched :=
  let (name, attached) := splitValue word
  match shape.switches.find? fun s => s.long == name with
  | some s => m.addSwitch shape.operands s attached
  | none => .error .unknownWord

/-- Takes the letters after one dash, each of them a switch, up to one that has a value: the rest
of the word is the value, without an `=` before it. -/
def takeShort (shape : Shape) : Matched → List Char → Except Fault Matched
  | m, [] => .ok m
  | m, c :: rest =>
    match shape.switches.find? fun s => s.short == some c with
    | none => .error .unknownWord
    | some s => match s.kind, rest with
      | .value _, [] => m.addSwitch shape.operands s none
      | .value _, '=' :: value => m.addSwitch shape.operands s (some (String.ofList value))
      | .value _, value => m.addSwitch shape.operands s (some (String.ofList value))
      | _, rest => do takeShort shape (← m.addSwitch shape.operands s none) rest

/-- Takes the words. After the word `--` all are operands. -/
def take (shape : Shape) : Bool → Matched → List String → Except Fault Matched
  | _, m, [] => m.settle shape.operands
  | onlyOperands, m, word :: rest =>
    if onlyOperands then do take shape true (← m.addOperand shape.operands word) rest
    else match word.toList with
      | ['-', '-'] => take shape true m rest
      | '-' :: '-' :: name => do take shape false (← shape.takeLong m name) rest
      | '-' :: c :: cs => do take shape false (← shape.takeShort m (c :: cs)) rest
      | _ => match m.pending with
        | some (.switch s kind none) =>
          take shape false { m with pending := some (.switch s kind (some word)) } rest
        | _ => do take shape false (← m.addOperand shape.operands word) rest

/-- Sorts the words after a command. -/
def ofWords (shape : Shape) (words : List String) : Except Fault Matched := do
  let m ← shape.take false {} words
  if shape.operands.required && m.operands.isEmpty then throw .operandMissing
  return m

end Shape

end Easel.Usage
