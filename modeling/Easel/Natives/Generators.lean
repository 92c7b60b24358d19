import Easel.Natives.Basic

/-!
# Generators

The natives of gaskets (`Apol`), Sierpinski fractals (`Sierp`) and hexagonal tilings (`Hexa`).
-/

namespace Easel.Natives

/-! ## Gaskets -/

namespace Apol

def construct : Native where
  name := "Apol"
  overloads := overloads [
    .of [] (.object .apollonian),
    .of [("x", .number), ("y", .number)] (.object .apollonian)]
  run args := do
    let origin ← if args.overload = 0 then pure Point.origin
      else pure ⟨← number args 0, ← number args 1⟩
    Action.new (.apollonian (.empty origin))

def enclosing : Native where
  name := "Apol.enclosing"
  overloads := overloads [.of [("self", .object .apollonian), ("r", .number)] .nothing]
  run args := do
    let radius ← number args 1
    let r ← object args 0
    let g ← gasket r
    grow r (.apollonian (g.enclose radius))

def next : Native where
  name := "Apol.next"
  overloads := overloads [.of [("self", .object .apollonian)] .nothing]
  run args := do
    let r ← object args 0
    let g ← gasket r
    grow r (.apollonian g.next)

def count : Native where
  name := "Apol.count"
  overloads := overloads [.of [("self", .object .apollonian)] .number]
  run args := do
    let g ← gasket (← object args 0)
    return .number (Float.ofNat g.circles.length)

def draw : Native where
  name := "Apol.draw"
  overloads := overloads [
    .of [("self", .object .apollonian)] .nothing,
    .of [("self", .object .apollonian), ("stroke", .colour)] .nothing]
  run := Natives.draw

end Apol

/-! ## Sierpinski fractals -/

namespace Sierp

/-- The corner at a position of the argument list. -/
def corner (args : Args) (i : Nat) : Action (Point Float) := do
  return (← labelledPoint (← object args i)).point

def construct : Native where
  name := "Sierp"
  overloads := overloads [
    .of [("x1", .number), ("y1", .number), ("x2", .number), ("y2", .number),
      ("x3", .number), ("y3", .number)] (.object .sierpinski),
    .of [("a", .object .point), ("b", .object .point), ("c", .object .point)]
      (.object .sierpinski)]
  run args := do
    let seed : Triangle Float ←
      if args.overload = 0 then
        pure ⟨⟨← number args 0, ← number args 1⟩, ⟨← number args 2, ← number args 3⟩,
          ⟨← number args 4, ← number args 5⟩⟩
      else pure ⟨← corner args 0, ← corner args 1, ← corner args 2⟩
    Action.new (.sierpinski (.ofSeed seed))

def next : Native where
  name := "Sierp.next"
  overloads := overloads [.of [("self", .object .sierpinski)] .nothing]
  run args := do
    let r ← object args 0
    let s ← fractal r
    grow r (.sierpinski s.next)

def count : Native where
  name := "Sierp.count"
  overloads := overloads [.of [("self", .object .sierpinski)] .number]
  run args := do
    let s ← fractal (← object args 0)
    return .number (Float.ofNat s.triangles.length)

def draw : Native where
  name := "Sierp.draw"
  overloads := overloads [
    .of [("self", .object .sierpinski)] .nothing,
    .of [("self", .object .sierpinski), ("stroke", .colour)] .nothing]
  run := Natives.draw

end Sierp

/-! ## Hexagonal tilings -/

namespace Hexa

/-- The rings of a tiling whose script asks for none in particular. -/
def defaultRings : Nat := 2

/-- A ring count from a number: the nearest whole one, at least zero and at most the largest. -/
def rings (x : Float) : Nat :=
  if Float.ofNat Hexagons.maxRings ≤ x then Hexagons.maxRings else (Scalar.round x).toNat

def construct : Native where
  name := "Hexa"
  overloads := overloads [
    .of [("x", .number), ("y", .number), ("size", .number)] (.object .hexagons),
    .of [("x", .number), ("y", .number), ("size", .number), ("rings", .number)]
      (.object .hexagons)]
  run args := do
    let center : Point Float := ⟨← number args 0, ← number args 1⟩
    let size ← number args 2
    let rings ← if args.overload = 0 then pure defaultRings else rings <$> number args 3
    Action.new (.hexagons (.ofRings center size rings))

def draw : Native where
  name := "Hexa.draw"
  overloads := overloads [
    .of [("self", .object .hexagons)] .nothing,
    .of [("self", .object .hexagons), ("stroke", .colour)] .nothing]
  run := Natives.draw

end Hexa

end Easel.Natives
