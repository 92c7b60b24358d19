import Easel.Proofs.Script.References
import Easel.Proofs.Sketch.Steps

/-!
# What a call of a run changes

A call of a native does one of three things to a run: it makes objects, it puts its receiver on the
canvas, or it lets its receiver grow. The last two ask for a frame. All else follows from this: a
run owns the objects that its calls made, and never those that were copied for snapshots, so no call
changes what a snapshot shows.
-/

namespace Easel

namespace Run

variable {snapshots : Snapshots} {index : Nat} {f : Native} {args : List Value}
  {r r' r'' : Run} {answer : Option Value}

/-! ## Three effects -/

/-- What a call of the native `name` has done to the run `r`, and what it has answered. -/
inductive Called (snapshots : Snapshots) (index : Nat) (name : String) (args : List Value)
    (r : Run) : Option Value → Run → Prop where
  /-- Objects were made, and the answer refers to no others. -/
  | quiet (os : List Object) {answer : Option Value} (drawing : name ∉ Natives.drawing)
      (growing : name ∉ Natives.growing)
      (refs : ∀ v, answer = some v → v.refs ⊆ (r.machine.heap.allocAll os).1)
      (fresh : ∀ o ∈ os, o.Fresh) :
      Called snapshots index name args r answer
        { r with machine := ⟨(r.machine.heap.allocAll os).2, r.machine.session⟩ }
  | draw {q : ObjectRef} {o : Object} (drawing : name ∈ Natives.drawing)
      (growing : name ∉ Natives.growing) (receiver : args.head? = some (.object q))
      (object : r.machine.heap.get? q = some o) :
      Called snapshots index name args r none (takeFrame snapshots index
        { r with machine := ⟨r.machine.heap,
          (r.machine.session.display q (Deed.stroke args)).requestRender⟩ })
  | grow {q : ObjectRef} {o₀ : Object} (o : Object) (drawing : name ∉ Natives.drawing)
      (growing : name ∈ Natives.growing) (receiver : args.head? = some (.object q))
      (object : r.machine.heap.get? q = some o₀) (grows : o₀.Grows name o) :
      Called snapshots index name args r none (takeFrame snapshots index
        { r with machine := ⟨r.machine.heap.set q o, r.machine.session.requestRender⟩ })

/-- To make any number of objects, or none, is the quiet effect: no frame is due after it. -/
theorem called_of_allocAll {name : String} (hsettled : r.machine.session.redrawPending = false)
    (hdraw : name ∉ Natives.drawing) (hgrow : name ∉ Natives.growing) (os : List Object) {w : Value}
    (hw : w.refs ⊆ (r.machine.heap.allocAll os).1) (hfresh : ∀ o ∈ os, o.Fresh)
    (result : ValueType) :
    Called snapshots index name args r (if result = .nothing then none else some w)
      (takeFrame snapshots index
        { r with machine := ⟨(r.machine.heap.allocAll os).2, r.machine.session⟩ }) := by
  have hframe := takeFrame_settled snapshots index
    { r with machine := ⟨(r.machine.heap.allocAll os).2, r.machine.session⟩ } hsettled
  rw [hframe]
  refine .quiet os hdraw hgrow (fun v hv => ?_) hfresh
  split at hv <;> cases hv
  exact hw

/-- A deed has one of the three effects, where no frame was due before. -/
theorem called_of_deed {d : Deed} {result : ValueType} {name : String} {m : Machine}
    (hfits : d.Fits result args r.machine.heap) (hname : name ∈ d.doers)
    (hgenuine : d.Genuine name r.machine.heap)
    (hsettled : r.machine.session.redrawPending = false)
    (h : d.outcome result r.machine = (.ok answer, m)) :
    Called snapshots index name args r answer
      (takeFrame snapshots index { r with machine := m }) := by
  have hdraw := Deed.mem_drawing hname
  have hgrow := Deed.mem_growing hname
  cases d with
  | make o =>
    cases h
    exact called_of_allocAll hsettled (mt hdraw.1 Bool.false_ne_true)
      (mt hgrow.1 Bool.false_ne_true) [o] (List.Subset.refl _)
      (List.forall_mem_singleton.2 hgenuine) result
  | makeAll os =>
    cases h
    refine called_of_allocAll hsettled (mt hdraw.1 Bool.false_ne_true)
      (mt hgrow.1 Bool.false_ne_true) os ?_ hgenuine result
    rw [Value.refs_list_objects]
    exact List.Subset.refl _
  | answer x =>
    cases h
    exact called_of_allocAll hsettled (mt hdraw.1 Bool.false_ne_true)
      (mt hgrow.1 Bool.false_ne_true) [] (List.Subset.refl _) (List.forall_mem_nil _) result
  | refuse owner field known => cases h
  | display q c =>
    obtain ⟨rfl, hq, rfl, o, ho⟩ := hfits
    cases h
    exact .draw (hdraw.2 rfl) (mt hgrow.1 Bool.false_ne_true) hq ho
  | grow q o =>
    obtain ⟨rfl, hq, -⟩ := hfits
    obtain ⟨o₀, ho, hgrows⟩ := hgenuine
    cases h
    exact .grow o (mt hdraw.1 Bool.false_ne_true) (hgrow.2 rfl) hq ho hgrows

/-- **Every call of a registered native has one of the three effects**, where no frame was due
before. -/
theorem called_of_callOnce (hf : f ∈ Natives.registry.natives)
    (hsettled : r.machine.session.redrawPending = false)
    (h : callOnce snapshots index f args r = .ok (answer, r')) :
    Called snapshots index f.name args r answer r' := by
  cases hr : f.resolve (args.map (Value.type r.machine.heap)) with
  | error e =>
    simp only [callOnce, Native.run_call_mismatch f hr] at h
    cases h
  | ok chosen =>
    obtain ⟨d, hfits, hname, hgenuine, hcall⟩ := Natives.call_deed hf hr
    simp only [callOnce, hcall] at h
    rcases d.outcome_ok_or chosen.signature.result r.machine with
      ⟨answer', m, hout⟩ | ⟨owner, field, known, -, hout⟩
    · rw [hout] at h
      cases h
      exact called_of_deed hfits hname hgenuine hsettled hout
    · rw [hout] at h
      cases h

/-! ## Ownership -/

/-- The copies that were made for snapshots. -/
def copies (r : Run) : List ObjectRef :=
  r.kept.toList.flatMap fun k => k.canvas.map Shown.object

/-- The object has been made, and not for a snapshot. -/
def Owns (r : Run) (q : ObjectRef) : Prop := q.index < r.machine.heap.size ∧ q ∉ r.copies

/-- All objects that the value refers to are the run's own. -/
def Holds (r : Run) (v : Value) : Prop := ∀ q ∈ v.refs, r.Owns q

/-- The bindings and the canvas refer to objects of the run's own alone, the snapshots to objects
that have been made, and the stack is empty. -/
structure Neat (r : Run) : Prop where
  bindings : ∀ e ∈ r.bindings.entries, r.Holds e.2
  canvas : ∀ s ∈ r.machine.session.canvas.toList, r.Owns s.object
  copies : ∀ q ∈ r.copies, q.index < r.machine.heap.size
  stack : r.machine.session.stack = []

/-- What holds of a run between two calls: it is neat, and no frame is due. -/
structure Tidy (r : Run) : Prop extends Neat r where
  settled : r.machine.session.redrawPending = false

theorem Tidy.fresh : Tidy {} where
  bindings := by simp
  canvas := by simp
  copies := by simp [Run.copies]
  stack := rfl
  settled := rfl

/-- `r'` comes after `r`: it owns what `r` owned, and its snapshots are those of `r`, which show
what they showed, and later ones. -/
structure Precedes (r r' : Run) : Prop where
  owns : ∀ q, r.Owns q → r'.Owns q
  snapshots : r.snapshots.toList <+: r'.snapshots.toList

namespace Precedes

theorem refl (r : Run) : Precedes r r := ⟨fun _ h => h, List.prefix_refl _⟩

theorem trans (h₁ : Precedes r r') (h₂ : Precedes r' r'') : Precedes r r'' :=
  ⟨fun q hq => h₂.owns q (h₁.owns q hq), h₁.snapshots.trans h₂.snapshots⟩

theorem holds (h : Precedes r r') {v : Value} (hv : r.Holds v) : r'.Holds v :=
  fun q hq => h.owns q (hv q hq)

/-- No snapshot notices a change of the heap that leaves the copies alone. -/
theorem of_kept_eq (hkept : r'.kept = r.kept)
    (hsize : r.machine.heap.size ≤ r'.machine.heap.size)
    (hcopies : ∀ q ∈ r.copies, r'.machine.heap.get? q = r.machine.heap.get? q) :
    Precedes r r' := by
  refine ⟨fun q hq => ⟨Nat.lt_of_lt_of_le hq.1 hsize, ?_⟩, ?_⟩
  · rw [Run.copies, hkept]
    exact hq.2
  · have hshown : ∀ k ∈ r.kept.toList,
        r'.machine.heap.shown k.canvas = r.machine.heap.shown k.canvas := fun k hk =>
      Heap.shown_congr fun s hs =>
        hcopies _ (List.mem_flatMap.2 ⟨k, hk, List.mem_map_of_mem hs⟩)
    have hframes : r'.snapshots.toList = r.snapshots.toList := by
      simp only [Run.snapshots, hkept, Array.toList_map]
      exact List.map_congr_left fun k hk => by rw [hshown k hk]
    exact hframes ▸ List.prefix_refl _

end Precedes

/-! ## Frames -/

theorem copies_takeFrame (snapshots : Snapshots) (index : Nat) (r : Run) :
    (takeFrame snapshots index r).copies =
      r.copies ++ (r.machine.heap.allocAll ((copied snapshots r).map Prod.fst)).1 := by
  cases snapshots with
  | skip => simp only [copies, kept_takeFrame_skip, copied, List.map_nil, Heap.allocAll,
      List.append_nil]
  | keep =>
    cases hpending : r.machine.session.redrawPending with
    | false =>
      rw [takeFrame_settled _ _ _ hpending]
      simp [copied, hpending, Heap.allocAll]
    | true =>
      simp only [copies, kept_takeFrame_keep _ _ hpending, copied, hpending, if_true,
        Array.toList_push, List.flatMap_append, List.flatMap_cons, List.flatMap_nil,
        List.append_nil, Heap.objects_allocShown]

theorem size_takeFrame (snapshots : Snapshots) (index : Nat) (r : Run) :
    (takeFrame snapshots index r).machine.heap.size =
      r.machine.heap.size + (copied snapshots r).length := by
  rw [heap_takeFrame, Heap.size_allocAll, List.length_map]

namespace Neat

variable (h : r.Neat)

include h

/-- The frames of a run after a frame: the new one is the last, and shows what is on the canvas. -/
theorem snapshots_takeFrame (snapshots : Snapshots) (index : Nat) :
    (takeFrame snapshots index r).snapshots.toList = r.snapshots.toList ++
      match snapshots with
      | .keep => if r.machine.session.redrawPending then [⟨r.frames, index, r.shown⟩] else []
      | .skip => [] := by
  have hold : ∀ k ∈ r.kept.toList, (takeFrame snapshots index r).machine.heap.shown k.canvas =
      r.machine.heap.shown k.canvas := by
    intro k hk
    rw [heap_takeFrame]
    refine Heap.shown_congr fun s hs => Heap.get?_allocAll_of_lt _ _ (h.copies _ ?_)
    exact List.mem_flatMap.2 ⟨k, hk, List.mem_map_of_mem hs⟩
  cases snapshots with
  | skip =>
    simp only [Run.snapshots, kept_takeFrame_skip, Array.toList_map, List.append_nil]
    exact List.map_congr_left fun k hk => by rw [hold k hk]
  | keep =>
    cases hpending : r.machine.session.redrawPending with
    | false => simp [takeFrame_settled _ _ _ hpending]
    | true =>
      have hnew : (takeFrame .keep index r).machine.heap.shown
          (r.machine.heap.allocShown r.machine.shown).1 = r.shown := by
        rw [heap_takeFrame, copied, if_pos hpending, ← Heap.heap_allocShown]
        exact Heap.shown_allocShown _ _
      simp only [Run.snapshots, kept_takeFrame_keep _ _ hpending, Array.toList_map,
        Array.toList_push, List.map_append, List.map_cons, List.map_nil, hnew, if_true]
      congr 1
      exact List.map_congr_left fun k hk => by rw [hold k hk]

/-- A frame changes nothing on the canvas. -/
theorem shown_takeFrame (snapshots : Snapshots) (index : Nat) :
    (takeFrame snapshots index r).shown = r.shown := by
  simp only [Run.shown, Machine.shown, session_takeFrame, heap_takeFrame]
  exact Heap.shown_congr fun s hs => Heap.get?_allocAll_of_lt _ _ (h.canvas s hs).1

/-- A frame takes nothing from the run, and changes no snapshot that was there. -/
theorem precedes_takeFrame (snapshots : Snapshots) (index : Nat) :
    Precedes r (takeFrame snapshots index r) := by
  refine ⟨fun q hq => ⟨?_, ?_⟩, ?_⟩
  · rw [size_takeFrame]
    exact Nat.lt_of_lt_of_le hq.1 (Nat.le_add_right _ _)
  · rw [copies_takeFrame, List.mem_append, not_or]
    refine ⟨hq.2, fun hnew => ?_⟩
    have := (Heap.mem_allocAll hnew).1
    have := hq.1
    omega
  · rw [h.snapshots_takeFrame snapshots index]
    exact List.prefix_append _ _

/-- A frame leaves a tidy run. -/
theorem takeFrame (snapshots : Snapshots) (index : Nat) :
    (takeFrame snapshots index r).Tidy := by
  have hprecedes := h.precedes_takeFrame snapshots index
  refine ⟨⟨fun e he => ?_, fun s hs => ?_, fun q hq => ?_, ?_⟩, ?_⟩
  · rw [bindings_takeFrame] at he
    exact hprecedes.holds (h.bindings e he)
  · rw [session_takeFrame] at hs
    exact hprecedes.owns _ (h.canvas s hs)
  · rw [copies_takeFrame] at hq
    rw [size_takeFrame]
    rcases List.mem_append.1 hq with hq | hq
    · exact Nat.lt_of_lt_of_le (h.copies q hq) (Nat.le_add_right _ _)
    · simpa using (Heap.mem_allocAll hq).2
  · rw [session_takeFrame]
    exact h.stack
  · rw [session_takeFrame]
    rfl

end Neat

/-! ## Calls -/

namespace Tidy

variable (h : r.Tidy) {q : ObjectRef}

theorem owns_receiver (hargs : ∀ v ∈ args, r.Holds v) (hq : args.head? = some (.object q)) :
    r.Owns q :=
  hargs _ (List.mem_of_mem_head? hq) q (by simp [Value.refs])

include h

/-- Objects that a call makes are the run's own. -/
theorem made (os : List Object) :
    Tidy { r with machine := ⟨(r.machine.heap.allocAll os).2, r.machine.session⟩ } ∧
      Precedes r { r with machine := ⟨(r.machine.heap.allocAll os).2, r.machine.session⟩ } ∧
      ∀ q ∈ (r.machine.heap.allocAll os).1,
        Owns { r with machine := ⟨(r.machine.heap.allocAll os).2, r.machine.session⟩ } q := by
  have hsize : r.machine.heap.size ≤ (r.machine.heap.allocAll os).2.size := by
    rw [Heap.size_allocAll]
    exact Nat.le_add_right _ _
  have hprecedes : Precedes r { r with machine := ⟨(r.machine.heap.allocAll os).2,
      r.machine.session⟩ } :=
    .of_kept_eq rfl hsize fun q hq => Heap.get?_allocAll_of_lt _ _ (h.copies q hq)
  refine ⟨⟨⟨?_, ?_, ?_, h.stack⟩, h.settled⟩, hprecedes, fun q hq => ?_⟩
  · exact fun e he => hprecedes.holds (h.bindings e he)
  · exact fun s hs => hprecedes.owns _ (h.canvas s hs)
  · exact fun q hq => Nat.lt_of_lt_of_le (h.copies q hq) hsize
  · obtain ⟨hle, hlt⟩ := Heap.mem_allocAll hq
    refine ⟨by rw [Heap.size_allocAll]; exact hlt, fun hcopy => ?_⟩
    have := h.copies q hcopy
    omega

theorem drawn (hq : r.Owns q) (c : Colour) :
    Neat { r with machine := ⟨r.machine.heap, (r.machine.session.display q c).requestRender⟩ } ∧
      Precedes r { r with machine := ⟨r.machine.heap,
        (r.machine.session.display q c).requestRender⟩ } := by
  refine ⟨⟨h.bindings, fun s hs => ?_, h.copies, h.stack⟩,
    .of_kept_eq rfl (Nat.le_refl _) fun _ _ => rfl⟩
  rw [Session.requestRender, Session.display, Array.toList_push, List.mem_append,
    List.mem_singleton] at hs
  rcases hs with hs | rfl
  · exact h.canvas s hs
  · exact hq

/-- What grows is the run's own, so no snapshot shows it. -/
theorem grown (hq : r.Owns q) (o : Object) :
    Neat { r with machine := ⟨r.machine.heap.set q o, r.machine.session.requestRender⟩ } ∧
      Precedes r { r with machine := ⟨r.machine.heap.set q o,
        r.machine.session.requestRender⟩ } := by
  have hprecedes : Precedes r { r with machine := ⟨r.machine.heap.set q o,
      r.machine.session.requestRender⟩ } := by
    refine .of_kept_eq rfl (by simp) fun p hp => Heap.get?_set_of_ne _ _ ?_
    rintro rfl
    exact hq.2 hp
  refine ⟨⟨?_, ?_, ?_, h.stack⟩, hprecedes⟩
  · exact fun e he => hprecedes.holds (h.bindings e he)
  · exact fun s hs => hprecedes.owns _ (h.canvas s hs)
  · intro p hp
    rw [Heap.size_set]
    exact h.copies p hp

/-- **A call leaves a tidy run tidy**: it may use what it was given, and what it answers the run
owns. -/
theorem called {name : String} (hargs : ∀ v ∈ args, r.Holds v)
    (hc : Called snapshots index name args r answer r') :
    r'.Tidy ∧ Precedes r r' ∧ ∀ v, answer = some v → r'.Holds v := by
  cases hc with
  | quiet os _ _ hrefs =>
    obtain ⟨htidy, hprecedes, howns⟩ := h.made os
    exact ⟨htidy, hprecedes, fun v hv q hq => howns q (hrefs v hv hq)⟩
  | draw _ _ hq _ =>
    obtain ⟨hneat, hprecedes⟩ := h.drawn (owns_receiver hargs hq) (Deed.stroke args)
    exact ⟨hneat.takeFrame _ _, hprecedes.trans (hneat.precedes_takeFrame _ _), by simp⟩
  | grow o _ _ hq _ _ =>
    obtain ⟨hneat, hprecedes⟩ := h.grown (owns_receiver hargs hq) o
    exact ⟨hneat.takeFrame _ _, hprecedes.trans (hneat.precedes_takeFrame _ _), by simp⟩

end Tidy

end Run

end Easel
