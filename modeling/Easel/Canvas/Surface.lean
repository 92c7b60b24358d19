import Easel.Colour.Basic

/-!
# Drawing surfaces

A surface takes paths, paints and translations, and answers nothing. What is drawn is therefore a
list of calls: it can be kept, counted and inspected as it is, and a raster turns it into pixels.
Path calls add to the current path, which paints leave in place until the next path begins.
-/

namespace Easel

/-- A call on a surface, in units of the canvas; angles are in radians, clockwise on screen. -/
inductive SurfaceCall (α : Type) where
  /-- Discards the current path. -/
  | beginPath
  /-- Starts a new part of the path. -/
  | moveTo (x y : α)
  /-- Extends the current part by a line. -/
  | lineTo (x y : α)
  /-- Extends the current part by an arc. -/
  | arc (cx cy radius start stop : α)
  /-- Joins the current part back to its start. -/
  | closePath
  | stroke (colour : Colour)
  | fill (colour : Colour)
  /-- Remembers the translation in force. -/
  | save
  /-- Shifts the origin of later path calls. -/
  | translate (dx dy : α)
  /-- Goes back to the translation remembered last. -/
  | restore
  deriving DecidableEq, Repr

namespace SurfaceCall

variable {α : Type}

/-- Whether the call paints. -/
def isPaint : SurfaceCall α → Bool
  | stroke _ => true
  | fill _ => true
  | _ => false

/-- How many of the calls paint. -/
def paints (calls : List (SurfaceCall α)) : Nat := calls.countP isPaint

end SurfaceCall

end Easel
