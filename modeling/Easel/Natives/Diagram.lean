import Easel.Natives.Basic

/-!
# Construction diagrams

The natives of labelled points (`Point`) and circles (`Circle`).
-/

namespace Easel.Natives

/-! ## Points -/

namespace Point

def construct : Native where
  name := "Point"
  overloads := overloads [
    .of [("x", .number), ("y", .number)] (.object .point),
    .of [("x", .number), ("y", .number), ("label", .text)] (.object .point)]
  run args := do
    let at_ : Easel.Point Float := ⟨← number args 0, ← number args 1⟩
    let label ← if args.overload = 1 then some <$> text args 2 else pure none
    Action.new (.point ⟨at_, label⟩)

def get : Native where
  name := "Point.get"
  overloads := overloads [.of [("self", .object .point), ("field", .text)] .number]
  run args := do
    let p ← labelledPoint (← object args 0)
    let name ← text args 1
    field .point LabelledPoint.fields name (p.field? name)

def draw : Native where
  name := "Point.draw"
  overloads := overloads [
    .of [("self", .object .point)] .nothing,
    .of [("self", .object .point), ("stroke", .colour)] .nothing]
  run := Natives.draw

end Point

/-! ## Circles -/

namespace Circle

def construct : Native where
  name := "Circle"
  overloads := overloads [
    .of [("x", .number), ("y", .number), ("r", .number)] (.object .circle),
    .of [("x", .number), ("y", .number), ("r", .number), ("label", .text)] (.object .circle),
    .of [("center", .object .point), ("r", .number)] (.object .circle)]
  run args := do
    let circle : LabelledCircle Float ← match args.overload with
      | 0 => pure ⟨.ofRadius (← number args 0) (← number args 1) (← number args 2), none⟩
      | 1 => pure ⟨.ofRadius (← number args 0) (← number args 1) (← number args 2),
          some (← text args 3)⟩
      | _ => do
        let center := (← labelledPoint (← object args 0)).point
        pure ⟨.ofRadius center.x center.y (← number args 1), none⟩
    Action.new (.circle circle)

def get : Native where
  name := "Circle.get"
  overloads := overloads [.of [("self", .object .circle), ("field", .text)] .number]
  run args := do
    let c ← labelledCircle (← object args 0)
    let name ← text args 1
    field .circle LabelledCircle.fields name (c.field? name)

def intersect : Native where
  name := "Circle.intersect"
  overloads := overloads [.of [("self", .object .circle), ("other", .object .circle)] .list]
  run args := do
    let a ← labelledCircle (← object args 0)
    let b ← labelledCircle (← object args 1)
    return .list (← (a.intersect b).mapM fun p => Action.new (.point p))

def draw : Native where
  name := "Circle.draw"
  overloads := overloads [
    .of [("self", .object .circle)] .nothing,
    .of [("self", .object .circle), ("stroke", .colour)] .nothing]
  run := Natives.draw

end Circle

end Easel.Natives
