import Easel.Script.Overloads
import Easel.Script.Session

/-!
# Natives and the calling convention

To call a native, a placeholder for it is pushed and then the arguments, left to right. `invoke`
chooses the overload by the types of the arguments, takes them and the placeholder off the stack,
runs the native, and pushes its result unless the overload returns `nothing`. Where the signatures
and the stack disagree, the call fails with a fault of the bridge; nothing is ever converted.

A failed `invoke` withdraws what the native displayed and requested. A failed `call` also restores
the stack.
-/

namespace Easel

/-- What a native does to a machine. A failed action keeps the changes it made before it failed. -/
abbrev Action := ExceptT Error (StateM Machine)

namespace Action

/-- Fails with a fault of the bridge. -/
def fault {α : Type} (f : BridgeFault) : Action α := throw (.internal f)

def session : Action Session := Machine.session <$> get

def heap : Action Heap := Machine.heap <$> get

def modifySession (f : Session → Session) : Action Unit :=
  modify fun m => { m with session := f m.session }

def modifyHeap (f : Heap → Heap) : Action Unit :=
  modify fun m => { m with heap := f m.heap }

/-- Makes a new object. -/
def new (o : Object) : Action Value :=
  modifyGet fun m =>
    let (ref, heap) := m.heap.alloc o
    (.object ref, { m with heap := heap })

/-- The object a reference stands for. -/
def object (r : ObjectRef) : Action Object := do
  match (← heap).get? r with
  | some o => return o
  | none => fault .danglingReference

/-- Takes the top value off the stack, if there is one. -/
def pop : Action (Option Value) := do
  let top := (← session).peek? 0
  modifySession Session.pop
  return top

/-- The types of the top `n` values, in the order they were pushed. -/
def argTypes (n : Nat) : Action (List ValueType) := do
  let s ← session
  if s.depth < n then fault (.underflow n s.depth)
  else return (s.topValues n).map (Value.type (← heap))

/-- Takes the top `n` values off the stack and gives them in the order they were pushed. -/
def popArgs (n : Nat) : Action (List Value) := do
  let s ← session
  if s.depth < n then fault (.underflow n s.depth)
  else
    modifySession fun s => s.truncate (s.depth - n)
    return s.topValues n

end Action

/-- The arguments of a call, checked against the overload chosen for it. -/
structure Args where
  callee : String
  /-- The position of the overload among those of its name. -/
  overload : Nat
  values : List Value

namespace Args

/-- The first parameter whose type differs from the value's, with the type of that value. -/
def mismatch? (h : Heap) : List Param → List Value → Option (Param × ValueType)
  | p :: ps, v :: vs => if v.type h = p.type then mismatch? h ps vs else some (p, v.type h)
  | _, _ => none

/-- Pairs values with the parameters of the chosen overload. -/
def bind (h : Heap) (callee : String) (resolved : Resolved) (values : List Value) :
    Except Error Args :=
  let params := resolved.signature.params
  if params.length ≠ values.length then
    .error (.internal (.argumentCount callee params.length values.length))
  else match mismatch? h params values with
    | some (p, got) => .error (.internal (.argumentType callee p.name p.type got))
    | none => .ok ⟨callee, resolved.index, values⟩

/-- The argument at a position. -/
def get (a : Args) (i : Nat) : Except Error Value :=
  match a.values[i]? with
  | some v => .ok v
  | none => .error (.internal (.noArgument a.callee i))

/-- The error for an argument that is not what the native wants. -/
def wrong {α : Type} (h : Heap) (a : Args) (i : Nat) (wanted : String) (got : Value) :
    Except Error α :=
  .error (.internal (.wrongArgument a.callee i wanted (got.type h)))

def number (h : Heap) (a : Args) (i : Nat) : Except Error Float := do
  match ← a.get i with
  | .number x => return x
  | v => a.wrong h i "Number" v

def text (h : Heap) (a : Args) (i : Nat) : Except Error String := do
  match ← a.get i with
  | .text s => return s
  | v => a.wrong h i "Text" v

def colour (h : Heap) (a : Args) (i : Nat) : Except Error Colour := do
  match ← a.get i with
  | .colour c => return c
  | v => a.wrong h i "Colour" v

def object (h : Heap) (a : Args) (i : Nat) : Except Error ObjectRef := do
  match ← a.get i with
  | .object r => return r
  | v => a.wrong h i "an object" v

end Args

/-- A named operation that scripts call, with its overloads. -/
structure Native where
  name : String
  overloads : Overloads
  run : Args → Action Value
  /-- Tells natives of one name apart. -/
  serial : Nat := 0

namespace Native

/-- What a placeholder of the native refers to. -/
def ref (f : Native) : NativeRef := ⟨f.name, f.serial⟩

/-- The overload for arguments of these types. -/
def resolve (f : Native) (args : List ValueType) : Except Error Resolved :=
  f.overloads.resolve f.name args

/-- Takes the arguments and the placeholder under them off the stack. -/
def takeArgs (f : Native) (argc : Nat) : Action (Args × ValueType) := do
  let types ← Action.argTypes argc
  let resolved ← f.resolve types
  let values ← Action.popArgs argc
  let args ← Args.bind (← Action.heap) f.name resolved values
  match ← Action.pop with
  | some (.native ref) =>
    if ref = f.ref then return (args, resolved.signature.result)
    else Action.fault (.wrongPlaceholder f.name (Value.render (← Action.heap) (.native ref)))
  | some other => Action.fault (.wrongPlaceholder f.name (other.render (← Action.heap)))
  | none => Action.fault (.missingPlaceholder f.name)

/-- Runs the native and checks its result, withdrawing what it displayed and requested if either
fails. -/
def runChecked (f : Native) (args : Args) (result : ValueType) : Action Value := do
  let mark := (← Action.session).checkpoint
  let withdraw := Action.modifySession fun s => s.rollback mark
  let value ← tryCatch (f.run args) fun e => do
    withdraw
    throw e
  let got := value.type (← Action.heap)
  if got ≠ result then
    withdraw
    Action.fault (.wrongResult f.name got result)
  else return value

/-- Invokes the native on `argc` arguments that lie above its placeholder. -/
def invoke (f : Native) (argc : Nat) : Action Unit := do
  let (args, result) ← f.takeArgs argc
  let value ← f.runChecked args result
  if result ≠ .nothing then Action.modifySession fun s => s.push value

/-- Calls the native: placeholder, arguments, `invoke`. A call that returns `nothing` has no
result. -/
def call (f : Native) (args : List Value) : Action (Option Value) := do
  let depth := (← Action.session).depth
  Action.modifySession fun s => args.foldl Session.push (s.push (.native f.ref))
  tryCatch (f.invoke args.length) fun e => do
    Action.modifySession fun s => s.truncate depth
    throw e
  if depth < (← Action.session).depth then Action.pop else return none

end Native

end Easel
