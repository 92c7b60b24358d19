import Easel.Natives.Registry
import Easel.Proofs.Natives.Deeds
import Easel.Proofs.Script.Renaming

/-!
# Natives do not look at references

Every native of the library uses references for nothing but to look objects up and to pass them on:
it makes, answers, shows and grows the same whatever the references are. The proofs go along the
code of the natives. A failed reading gives the same error on both sides, because the error tells
the type of a value and not the value.
-/

namespace Easel.Natives

open Easel.Action (Renames)

variable {ρ : ObjectRef → ObjectRef} (a : Args) (i : Nat)

/-! ## Reading arguments -/

theorem get_rename : (a.rename ρ).get i = (a.get i).map (Value.rename ρ) := by
  simp only [Args.get, Args.rename, List.getElem?_map]
  cases a.values[i]? <;> rfl

theorem wrong_rename {α : Type} {h h' : Heap} (hρ : h.Renaming ρ h') (wanted : String) (v : Value)
    (f : α → α) : (a.rename ρ).wrong h' i wanted (v.rename ρ) = (a.wrong h i wanted v).map f := by
  simp only [Args.wrong, hρ.type_rename]
  rfl

theorem number_renames : Renames ρ id (number a i) (number (a.rename ρ) i) := by
  refine .read fun h h' hρ => ?_
  simp only [Args.number, get_rename]
  cases a.get i with
  | error e => rfl
  | ok v => cases v with
    | number x => rfl
    | _ => exact wrong_rename a i hρ "Number" _ id

theorem text_renames : Renames ρ id (text a i) (text (a.rename ρ) i) := by
  refine .read fun h h' hρ => ?_
  simp only [Args.text, get_rename]
  cases a.get i with
  | error e => rfl
  | ok v => cases v with
    | text s => rfl
    | _ => exact wrong_rename a i hρ "Text" _ id

theorem colour_renames : Renames ρ id (colour a i) (colour (a.rename ρ) i) := by
  refine .read fun h h' hρ => ?_
  simp only [Args.colour, get_rename]
  cases a.get i with
  | error e => rfl
  | ok v => cases v with
    | colour c => rfl
    | _ => exact wrong_rename a i hρ "Colour" _ id

theorem object_renames : Renames ρ ρ (object a i) (object (a.rename ρ) i) := by
  refine .read fun h h' hρ => ?_
  simp only [Args.object, get_rename]
  cases a.get i with
  | error e => rfl
  | ok v => cases v with
    | object r => rfl
    | _ => exact wrong_rename a i hρ "an object" _ ρ

theorem viewed_renames {α : Type} (wanted : ObjectClass) (view : Object → Option α)
    (r : ObjectRef) : Renames ρ id (viewed wanted view r) (viewed wanted view (ρ r)) := by
  refine (Renames.object r).bind_same fun o => ?_
  cases view o with
  | none => exact .throw id _
  | some x => exact .pure rfl

/-- The part that `view` finds in the object at a position. -/
theorem viewed_object_renames {α β : Type} {g : β → β} (wanted : ObjectClass)
    (view : Object → Option α) {k k' : α → Action β} (hk : ∀ x, Renames ρ g (k x) (k' x)) :
    Renames ρ g (object a i >>= fun r => viewed wanted view r >>= k)
      (object (a.rename ρ) i >>= fun r => viewed wanted view r >>= k') :=
  (object_renames a i).bind fun r => (viewed_renames wanted view r).bind_same hk

/-! ## Making, showing and growing -/

/-- New objects are listed under their references on each side. -/
theorem newAll_renames {β : Type} (mk : β → Object) (xs : List β) :
    Renames ρ (Value.rename ρ) (do return .list (← xs.mapM fun x => Action.new (mk x)))
      (do return .list (← xs.mapM fun x => Action.new (mk x))) := by
  intro m m' h
  obtain ⟨hrefs, hheap⟩ := h.heap.allocAll (xs.map mk)
  simp only [Action.run_bind, run_mapM_new, Action.run_pure, hrefs]
  exact ⟨congrArg Except.ok (Value.rename_list_objects ρ _).symm, hheap, h.session⟩

theorem draw_renames : Renames ρ (Value.rename ρ) (draw a) (draw (a.rename ρ)) := by
  refine (object_renames a 0).bind fun r => ?_
  have hshow : ∀ stroke, Renames ρ (Value.rename ρ)
      (do Action.modifySession fun s => (s.display r stroke).requestRender
          return .nothing)
      (do Action.modifySession fun s => (s.display (ρ r) stroke).requestRender
          return .nothing) := fun stroke =>
    (Renames.modifySession fun s =>
      congrArg Session.requestRender (s.display_rename ρ r stroke)).bind_same fun _ => .pure rfl
  refine .ite (a.overload = 0) ?_ ?_
  · exact hshow defaultStroke
  · exact (colour_renames a 1).bind_same hshow

theorem grow_renames (r : ObjectRef) (o : Object) :
    Renames ρ (Value.rename ρ) (grow r o) (grow (ρ r) o) := by
  intro m m' h
  refine ⟨rfl, h.heap.set r o, ?_⟩
  exact congrArg Session.requestRender h.session

theorem field_renames (owner : ObjectClass) (known : List String) (name : String)
    (value : Option Float) :
    Renames ρ (Value.rename ρ) (field owner known name value) (field owner known name value) := by
  cases value with
  | none => exact .throw _ _
  | some x => exact .pure rfl

theorem draw_oblivious {f : Native} (hrun : f.run = draw) : f.Oblivious := by
  intro ρ a
  rw [hrun]
  exact draw_renames a

/-! ## The natives, class by class -/

namespace Apol

theorem construct_oblivious : construct.Oblivious := by
  intro ρ a
  refine .ite (a.overload = 0) (.new _) ?_
  exact (number_renames a 0).bind_same fun x => (number_renames a 1).bind_same fun y => .new _

theorem enclosing_oblivious : enclosing.Oblivious := fun _ a =>
  (number_renames a 1).bind_same fun radius => (object_renames a 0).bind fun r =>
    (viewed_renames _ _ r).bind_same fun g => grow_renames r (.apollonian (g.enclose radius))

theorem next_oblivious : next.Oblivious := fun _ a =>
  (object_renames a 0).bind fun r =>
    (viewed_renames _ _ r).bind_same fun g => grow_renames r (.apollonian g.next)

theorem count_oblivious : count.Oblivious := fun _ a =>
  viewed_object_renames a 0 _ _ fun _ => .pure rfl

end Apol

namespace Sierp

theorem corner_renames : Renames ρ id (corner a i) (corner (a.rename ρ) i) :=
  viewed_object_renames a i _ _ fun _ => .pure rfl

theorem construct_oblivious : construct.Oblivious := by
  intro ρ a
  refine .ite (a.overload = 0) ?_ ?_
  · exact (number_renames a 0).bind_same fun _ => (number_renames a 1).bind_same fun _ =>
      (number_renames a 2).bind_same fun _ => (number_renames a 3).bind_same fun _ =>
      (number_renames a 4).bind_same fun _ => (number_renames a 5).bind_same fun _ => .new _
  · exact (corner_renames a 0).bind_same fun _ => (corner_renames a 1).bind_same fun _ =>
      (corner_renames a 2).bind_same fun _ => .new _

theorem next_oblivious : next.Oblivious := fun _ a =>
  (object_renames a 0).bind fun r =>
    (viewed_renames _ _ r).bind_same fun f => grow_renames r (.sierpinski f.next)

theorem count_oblivious : count.Oblivious := fun _ a =>
  viewed_object_renames a 0 _ _ fun _ => .pure rfl

end Sierp

theorem Hexa.construct_oblivious : Hexa.construct.Oblivious := by
  intro ρ a
  refine (number_renames a 0).bind_same fun x => (number_renames a 1).bind_same fun y =>
    (number_renames a 2).bind_same fun size => .ite (a.overload = 0) (.new _) ?_
  exact ((number_renames a 3).map_same rings).bind_same fun _ => .new _

namespace Point

theorem construct_oblivious : construct.Oblivious := by
  intro ρ a
  refine (number_renames a 0).bind_same fun x => (number_renames a 1).bind_same fun y =>
    .ite (a.overload = 1) ?_ (.new _)
  exact ((text_renames a 2).map_same some).bind_same fun _ => .new _

theorem get_oblivious : get.Oblivious := fun _ a =>
  viewed_object_renames a 0 _ _ fun _ =>
    (text_renames a 1).bind_same fun _ => field_renames _ _ _ _

end Point

namespace Circle

theorem construct_oblivious : construct.Oblivious := by
  intro ρ a
  have hoverload : (a.rename ρ).overload = a.overload := rfl
  simp only [construct, hoverload]
  rcases a.overload with _ | _ | _
  · exact (number_renames a 0).bind_same fun _ => (number_renames a 1).bind_same fun _ =>
      (number_renames a 2).bind_same fun _ => .new _
  · exact (number_renames a 0).bind_same fun _ => (number_renames a 1).bind_same fun _ =>
      (number_renames a 2).bind_same fun _ => (text_renames a 3).bind_same fun _ => .new _
  · exact viewed_object_renames a 0 _ _ fun _ => (number_renames a 1).bind_same fun _ => .new _

theorem get_oblivious : get.Oblivious := fun _ a =>
  viewed_object_renames a 0 _ _ fun _ =>
    (text_renames a 1).bind_same fun _ => field_renames _ _ _ _

theorem intersect_oblivious : intersect.Oblivious := fun _ a =>
  viewed_object_renames a 0 _ _ fun _ => viewed_object_renames a 1 _ _ fun _ =>
    newAll_renames .point _

end Circle

/-- **No native of the library looks at references.** -/
theorem oblivious {f : Native} (hf : f ∈ registry.natives) : f.Oblivious := by
  simp only [Registry.natives, registry, classes, List.flatMap_cons, List.flatMap_nil,
    NativeClass.natives, List.cons_append, List.nil_append, List.mem_cons, List.not_mem_nil,
    or_false] at hf
  rcases hf with rfl | rfl | rfl | rfl | rfl | rfl | rfl | rfl | rfl | rfl | rfl | rfl | rfl |
    rfl | rfl | rfl | rfl | rfl
  · exact Apol.construct_oblivious
  · exact Apol.enclosing_oblivious
  · exact Apol.next_oblivious
  · exact Apol.count_oblivious
  · exact draw_oblivious rfl
  · exact Sierp.construct_oblivious
  · exact Sierp.next_oblivious
  · exact Sierp.count_oblivious
  · exact draw_oblivious rfl
  · exact Hexa.construct_oblivious
  · exact draw_oblivious rfl
  · exact Point.construct_oblivious
  · exact Point.get_oblivious
  · exact draw_oblivious rfl
  · exact Circle.construct_oblivious
  · exact Circle.get_oblivious
  · exact Circle.intersect_oblivious
  · exact draw_oblivious rfl

end Easel.Natives
