import Easel.Natives.Registry
import Easel.Sketch.Basic

/-!
# Running a sketch

The steps of a sketch are carried out on a fresh machine. After every call that asked for a redraw
there is a frame. A run can keep a snapshot of each frame: a canvas of copies, which are objects of
their own in the heap of the run.
-/

namespace Easel

/-- The values bound to names, the newest binding first. -/
structure Bindings where
  entries : List (String × Value) := []

namespace Bindings

/-- The value bound to a name. -/
def get? (b : Bindings) (name : String) : Option Value := b.entries.lookup name

/-- Binds a name, which loses what it was bound to. -/
def insert (b : Bindings) (name : String) (v : Value) : Bindings :=
  ⟨(name, v) :: b.entries.filter fun e => e.1 != name⟩

theorem get?_insert_self (b : Bindings) (name : String) (v : Value) :
    (b.insert name v).get? name = some v := by
  simp [get?, insert]

theorem lookup_filter_ne {name other : String} (h : other ≠ name) (es : List (String × Value)) :
    (es.filter fun e => e.1 != name).lookup other = es.lookup other := by
  induction es with
  | nil => rfl
  | cons e es ih =>
    obtain ⟨k, w⟩ := e
    by_cases hk : k = name
    · subst hk
      have hne : (other == k) = false := by simpa using h
      simp [List.lookup_cons, hne, ih]
    · have hf : (k != name) = true := by simpa using hk
      simp only [List.filter_cons, hf, if_true, List.lookup_cons, ih]

theorem get?_insert_of_ne (b : Bindings) (v : Value) {name other : String} (h : other ≠ name) :
    (b.insert name v).get? other = b.get? other := by
  have hne : (other == name) = false := by simpa using h
  simp [get?, insert, List.lookup_cons, hne, lookup_filter_ne h]

end Bindings

/-- What a canvas shows: its objects as they are in the heap, with their colours. -/
def Heap.shown (h : Heap) (canvas : List Shown) : List (Object × Colour) :=
  canvas.filterMap fun s => (h.get? s.object).map fun o => (o, s.colour)

/-- Makes new objects, and a canvas that shows them in their colours. -/
def Heap.allocShown (h : Heap) : List (Object × Colour) → List Shown × Heap
  | [] => ([], h)
  | (o, c) :: rest =>
    let (ref, h) := h.alloc o
    let (canvas, h) := h.allocShown rest
    (⟨ref, c⟩ :: canvas, h)

/-- The canvas with its objects as they are at one moment. -/
def Machine.shown (m : Machine) : List (Object × Colour) := m.heap.shown m.session.canvas.toList

/-- The canvas as it stood when a frame was produced, its objects copied for the snapshot alone. -/
structure Snapshot where
  index : Nat
  /-- The step whose call asked for the frame. -/
  step : Nat
  canvas : List Shown

/-- A frame of which there is a snapshot, with what the snapshot shows. -/
structure Frame where
  index : Nat
  /-- The step whose call asked for the frame. -/
  step : Nat
  shown : List (Object × Colour)

/-- Whether a run keeps a snapshot of every frame. -/
inductive Snapshots where
  | keep
  | skip
  deriving DecidableEq, Repr

/-- What a run has come to. -/
structure Run where
  machine : Machine := {}
  bindings : Bindings := {}
  frames : Nat := 0
  /-- The snapshots, if the run keeps them. -/
  kept : Array Snapshot := #[]

namespace Run

/-- The value of an argument. -/
def argument (b : Bindings) : Arg → Except Error Value
  | .number x => .ok (.number x)
  | .colour c => .ok (.colour c)
  | .text s => .ok (.text s)
  | .binding name => match b.get? name with
    | some v => .ok v
    | none => .error (.unknownBinding name)

/-- Keeps a snapshot of the canvas: copies of its objects as they are now. -/
def keepSnapshot (step : Nat) (r : Run) : Run :=
  let (canvas, heap) := r.machine.heap.allocShown r.machine.shown
  { r with
    machine := { r.machine with heap }
    kept := r.kept.push ⟨r.frames, step, canvas⟩ }

/-- Produces the frame that the last call asked for, if it did. -/
def takeFrame (snapshots : Snapshots) (step : Nat) (r : Run) : Run :=
  if r.machine.session.redrawPending then
    let r := match snapshots with
      | .keep => keepSnapshot step r
      | .skip => r
    { r with
      machine := { r.machine with session := r.machine.session.takeRedraw }
      frames := r.frames + 1 }
  else r

/-- Makes a call once and produces its frame; gives the result with what the run has come to. -/
def callOnce (snapshots : Snapshots) (step : Nat) (f : Native) (args : List Value) (r : Run) :
    Except Error (Option Value × Run) :=
  match (f.call args).run r.machine with
  | (.ok result, machine) => .ok (result, takeFrame snapshots step { r with machine })
  | (.error e, _) => .error e

/-- Makes a call a number of times and gives the last result, `last` if there is none. -/
def callTimes (snapshots : Snapshots) (step : Nat) (f : Native) (args : List Value) :
    Nat → Option Value → Run → Except Error (Option Value × Run)
  | 0, last, r => .ok (last, r)
  | n + 1, _, r => do
    let (result, r) ← callOnce snapshots step f args r
    callTimes snapshots step f args n result r

/-- Carries out a step: the native is looked up, the arguments are evaluated once, the calls are
made, and the last result is bound. -/
def step (snapshots : Snapshots) (index : Nat) (s : Step) (r : Run) : Except Error Run := do
  let f ← Natives.registry.lookup s.call
  let args ← s.args.mapM (argument r.bindings)
  let (result, r) ← callTimes snapshots index f args s.times none r
  match s.bind with
  | some name => return { r with bindings := r.bindings.insert name (result.getD .nothing) }
  | none => return r

/-- Carries out steps, the first of which has this index. -/
def steps (snapshots : Snapshots) : Nat → List Step → Run → Except Error Run
  | _, [], r => .ok r
  | index, s :: rest, r => do
    let r ← step snapshots index s r
    steps snapshots (index + 1) rest r

/-- The canvas at the end, with its objects. -/
def shown (r : Run) : List (Object × Colour) := r.machine.shown

/-- The frames of which the run kept snapshots, with what the snapshots show at the end. -/
def snapshots (r : Run) : Array Frame :=
  r.kept.map fun k => ⟨k.index, k.step, r.machine.heap.shown k.canvas⟩

end Run

namespace Sketch

/-- Runs the sketch. -/
def run (snapshots : Snapshots) (s : Sketch) : Except Error Run := Run.steps snapshots 0 s.steps {}

end Sketch

end Easel
