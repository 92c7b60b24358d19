import Easel.Script.Value

/-!
# Sessions

A session is what one run of a script acts on: the evaluation stack, the canvas, and the requests to
redraw it. Requests made before the next frame collapse into one frame.

A checkpoint remembers the canvas and the redraw state, and `rollback` returns to it; the stack and
the objects themselves are no part of it.
-/

namespace Easel

/-- An object on the canvas, with the colour it is drawn in. -/
structure Shown where
  object : ObjectRef
  colour : Colour
  deriving DecidableEq, Repr

/-- The state that one run of a script acts on. -/
structure Session where
  /-- The evaluation stack, its top first. -/
  stack : List Value := []
  /-- The objects on display, in drawing order. -/
  canvas : Array Shown := #[]
  redrawPending : Bool := false
  /-- All requests so far, collapsed ones included. -/
  renderRequests : Nat := 0

/-- The length of the canvas and the redraw state at some moment. -/
structure Checkpoint where
  canvasSize : Nat
  redrawPending : Bool
  renderRequests : Nat
  deriving DecidableEq, Repr

namespace Session

def depth (s : Session) : Nat := s.stack.length

def push (s : Session) (v : Value) : Session := { s with stack := v :: s.stack }

/-- The session without the top of its stack. -/
def pop (s : Session) : Session := { s with stack := s.stack.tail }

/-- The value `n` places below the top. -/
def peek? (s : Session) (n : Nat) : Option Value := s.stack[n]?

/-- Drops what lies above the lowest `n` values of the stack. -/
def truncate (s : Session) (n : Nat) : Session :=
  { s with stack := s.stack.drop (s.depth - n) }

/-- The top `n` values, in the order they were pushed. -/
def topValues (s : Session) (n : Nat) : List Value := (s.stack.take n).reverse

/-- Puts an object on the canvas, once more if it is there already. -/
def display (s : Session) (object : ObjectRef) (colour : Colour) : Session :=
  { s with canvas := s.canvas.push ⟨object, colour⟩ }

/-- Asks for a redraw. -/
def requestRender (s : Session) : Session :=
  { s with redrawPending := true, renderRequests := s.renderRequests + 1 }

/-- The session after a frame is produced for the pending requests, if there are any. -/
def takeRedraw (s : Session) : Session := { s with redrawPending := false }

def checkpoint (s : Session) : Checkpoint :=
  ⟨s.canvas.size, s.redrawPending, s.renderRequests⟩

/-- Withdraws what was displayed and requested since the checkpoint. -/
def rollback (s : Session) (c : Checkpoint) : Session :=
  { s with
    canvas := s.canvas.take c.canvasSize
    redrawPending := c.redrawPending
    renderRequests := c.renderRequests }

end Session

/-- A running script: the objects it made and the session it acts on. -/
structure Machine where
  heap : Heap := {}
  session : Session := {}

end Easel
