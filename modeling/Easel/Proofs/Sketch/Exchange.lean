import Easel.Proofs.Sketch.Unseen
import Mathlib.Logic.Function.Iterate

/-!
# Drawing and growing commute

A call that draws puts a reference on the canvas, whatever the object behind it has become; a call
that lets an object grow does not look at the canvas. So two steps next to each other, one of which
draws and the other of which grows, may change places. Without snapshots the two runs are the same;
with snapshots they are the same up to references, because the copies are made at other moments.
-/

namespace Easel

/-! ## Calls that draw and calls that grow -/

namespace Natives

variable {f : Native} {args : List Value} {h : Heap} {chosen : Resolved}

/-- A call that draws looks at no object. -/
theorem call_draws (hf : f ∈ registry.natives) (hname : f.name ∈ drawing)
    (hr : f.resolve (args.map (Value.type h)) = .ok chosen) :
    ∃ q, args.head? = some (.object q) ∧ ∀ s, (f.call args).run ⟨h, s⟩ =
      (.ok none, ⟨h, (s.display q (Deed.stroke args)).requestRender⟩) := by
  obtain ⟨d, hfits, hdoer, -, hcall⟩ := call_deed_of_heap hf h hr
  have hdraws := (Deed.mem_drawing hdoer).1 hname
  cases d with
  | display q c =>
    obtain ⟨hresult, hq, rfl, -⟩ := hfits
    refine ⟨q, hq, fun s => ?_⟩
    rw [hcall s, hresult]
    rfl
  | _ => cases hdraws

/-- A call that lets an object grow does not look at the canvas. -/
theorem call_grows (hf : f ∈ registry.natives) (hname : f.name ∈ growing)
    (hr : f.resolve (args.map (Value.type h)) = .ok chosen) :
    ∃ q o₀ o, h.get? q = some o₀ ∧ o₀.kind = o.kind ∧ ∀ s, (f.call args).run ⟨h, s⟩ =
      (.ok none, ⟨h.set q o, s.requestRender⟩) := by
  obtain ⟨d, hfits, hdoer, -, hcall⟩ := call_deed_of_heap hf h hr
  have hgrows := (Deed.mem_growing hdoer).1 hname
  cases d with
  | grow q o =>
    obtain ⟨hresult, -, o₀, ho₀, hkind⟩ := hfits
    refine ⟨q, o₀, o, ho₀, hkind, fun s => ?_⟩
    rw [hcall s, hresult]
    rfl
  | _ => cases hgrows

end Natives

namespace Run

variable {index : Nat} {f : Native} {args : List Value} {r r' : Run}

/-- The run after an entry has come onto the canvas, and a frame has been produced. -/
def drawn (e : Shown) (r : Run) : Run :=
  { r with
    machine := ⟨r.machine.heap,
      (r.machine.session.display e.object e.colour).requestRender.takeRedraw⟩
    frames := r.frames + 1 }

theorem heap_iterate_drawn (e : Shown) (n : Nat) (r : Run) :
    ((drawn e)^[n] r).machine.heap = r.machine.heap := by
  induction n generalizing r with
  | zero => rfl
  | succ n ih => exact ih (r.drawn e)

theorem bindings_iterate_drawn (e : Shown) (n : Nat) (r : Run) :
    ((drawn e)^[n] r).bindings = r.bindings := by
  induction n generalizing r with
  | zero => rfl
  | succ n ih => exact ih (r.drawn e)

/-- The run after an object has been replaced by a grown one, and a frame has been produced. -/
def grown (q : ObjectRef) (o : Object) (r : Run) : Run :=
  { r with
    machine := ⟨r.machine.heap.set q o, r.machine.session.requestRender.takeRedraw⟩
    frames := r.frames + 1 }

/-- The two have the same bindings, and all values have the same types in both. -/
structure SameTypes (r r' : Run) : Prop where
  bindings : r'.bindings = r.bindings
  types : ∀ v : Value, v.type r'.machine.heap = v.type r.machine.heap

namespace SameTypes

theorem refl (r : Run) : SameTypes r r := ⟨rfl, fun _ => rfl⟩

theorem trans {r'' : Run} (h : SameTypes r r') (h' : SameTypes r' r'') : SameTypes r r'' :=
  ⟨h'.bindings.trans h.bindings, fun v => (h'.types v).trans (h.types v)⟩

theorem map_type (h : SameTypes r r') (vs : List Value) :
    vs.map (Value.type r'.machine.heap) = vs.map (Value.type r.machine.heap) :=
  List.map_congr_left fun v _ => h.types v

end SameTypes

/-! ### Drawing -/

theorem callTimes_draws (hf : f ∈ Natives.registry.natives) (hname : f.name ∈ Natives.drawing)
    {chosen : Resolved} (hr : f.resolve (args.map (Value.type r.machine.heap)) = .ok chosen) :
    ∃ e, ∀ index n last r', SameTypes r r' →
      ∃ answer, callTimes .skip index f args n last r' = .ok (answer, (drawn e)^[n] r') := by
  obtain ⟨q, hq, -⟩ := Natives.call_draws hf hname hr
  -- The entry is fixed by the arguments, so it is the same for every run and every time.
  refine ⟨⟨q, Deed.stroke args⟩, fun index n => ?_⟩
  induction n with
  | zero => exact fun last r' _ => ⟨last, rfl⟩
  | succ n ih =>
    intro last r' h
    obtain ⟨q', hq', hcall⟩ := Natives.call_draws hf hname (h.map_type args ▸ hr)
    obtain rfl : q' = q := by simpa [hq'] using hq
    have honce : callOnce .skip index f args r' = .ok (none, r'.drawn ⟨q', Deed.stroke args⟩) := by
      simp only [callOnce]
      rw [hcall r'.machine.session]
      rfl
    simp only [callTimes, honce]
    exact ih none _ ⟨h.bindings, h.types⟩

/-- A step that draws does the same to all runs with the same bindings, of the same types: it fails,
or puts an entry on the canvas a number of times. -/
theorem step_draws {a : Step} (hname : a.call ∈ Natives.drawing) (hbind : a.bind = none) (r : Run) :
    (∃ e, ∀ index r', SameTypes r r' → step .skip index a r' = .error e) ∨
    ∃ e n, ∀ index r', SameTypes r r' → step .skip index a r' = .ok ((drawn e)^[n] r') := by
  have hsettle : ∀ answer r', settle a answer r' = r' := by simp [settle, hbind]
  cases hp : prepare a r.bindings with
  | error e => exact .inl ⟨e, fun _ _ h => step_unprepared (h.bindings ▸ hp)⟩
  | ok call =>
    obtain ⟨f, args⟩ := call
    obtain ⟨hmem, hcall⟩ := prepare_eq_ok hp
    have hstep : ∀ index r', SameTypes r r' → step .skip index a r' =
        (callTimes .skip index f args a.times none r' >>= fun called => .ok called.2) := by
      intro index r' h
      rw [step_prepared (h.bindings ▸ hp)]
      simp only [hsettle]
    cases hr : f.resolve (args.map (Value.type r.machine.heap)) with
    | error e =>
      by_cases hzero : a.times = 0
      -- A step that makes no call goes well with any arguments; the entry is then no matter.
      · refine .inr ⟨⟨⟨0⟩, Natives.defaultStroke⟩, 0, fun index r' h => ?_⟩
        rw [hstep index r' h, hzero]
        rfl
      · refine .inl ⟨e, fun index r' h => ?_⟩
        rw [hstep index r' h,
          callTimes_mismatch (Nat.pos_of_ne_zero hzero) none (h.map_type args ▸ hr)]
        rfl
    | ok chosen =>
      obtain ⟨e, hcalls⟩ := callTimes_draws hmem (hcall ▸ hname) hr
      refine .inr ⟨e, a.times, fun index r' h => ?_⟩
      obtain ⟨answer, hanswer⟩ := hcalls index a.times none r' h
      rw [hstep index r' h, hanswer]
      rfl

/-! ### Growing -/

theorem SameTypes.grown {q : ObjectRef} {o₀ o : Object} (ho : r.machine.heap.get? q = some o₀)
    (hkind : o₀.kind = o.kind) : SameTypes r (r.grown q o) :=
  ⟨rfl, Value.type_set ho hkind⟩

/-- The heap decides what a call that lets an object grow comes to. -/
theorem callOnce_grows (hf : f ∈ Natives.registry.natives) (hname : f.name ∈ Natives.growing)
    (args : List Value) (r : Run) :
    (∃ e, ∀ index r', r'.machine.heap = r.machine.heap →
      callOnce .skip index f args r' = .error e) ∨
    ∃ q o₀ o, r.machine.heap.get? q = some o₀ ∧ o₀.kind = o.kind ∧
      ∀ index r', r'.machine.heap = r.machine.heap →
        callOnce .skip index f args r' = .ok (none, r'.grown q o) := by
  cases hr : f.resolve (args.map (Value.type r.machine.heap)) with
  | error e =>
    refine .inl ⟨e, fun index r' hheap => ?_⟩
    simp only [callOnce, Native.run_call_mismatch f (hheap ▸ hr)]
  | ok chosen =>
    obtain ⟨q, o₀, o, ho, hkind, hcall⟩ := Natives.call_grows hf hname hr
    refine .inr ⟨q, o₀, o, ho, hkind, fun index r' hheap => ?_⟩
    have hrun := hcall r'.machine.session
    rw [← hheap] at hrun
    simp only [callOnce]
    rw [hrun]
    rfl

theorem callOnce_drawn (hf : f ∈ Natives.registry.natives) (hname : f.name ∈ Natives.growing)
    (index index' : Nat) (args : List Value) (e : Shown) (n : Nat) (r : Run) :
    callOnce .skip index' f args ((drawn e)^[n] r) =
      (callOnce .skip index f args r).map fun called => (called.1, (drawn e)^[n] called.2) := by
  rcases callOnce_grows hf hname args r with ⟨e', hfail⟩ | ⟨q, o₀, o, -, -, honce⟩
  · rw [hfail index r rfl, hfail index' _ (heap_iterate_drawn e n r)]
    rfl
  · have hcommute : Function.Commute (grown q o) (drawn e) := fun _ => rfl
    rw [honce index r rfl, honce index' _ (heap_iterate_drawn e n r), hcommute.iterate_right n r]
    rfl

/-- **A step that lets objects grow does the same whatever comes onto the canvas before.** -/
theorem step_drawn {b : Step} (hname : b.call ∈ Natives.growing) (hbind : b.bind = none)
    (index index' : Nat) (e : Shown) (n : Nat) (r : Run) :
    step .skip index' b ((drawn e)^[n] r) = (step .skip index b r).map (drawn e)^[n] := by
  refine step_commutes (bindings_iterate_drawn e n) (fun answer r => by simp [settle, hbind]) ?_
  intro f args hp r
  obtain ⟨hmem, hcall⟩ := prepare_eq_ok hp
  exact callOnce_drawn hmem (hcall ▸ hname) index index' args e n r

theorem sameTypes_callTimes (hf : f ∈ Natives.registry.natives)
    (hname : f.name ∈ Natives.growing) {n : Nat} {last answer : Option Value}
    (h : callTimes .skip index f args n last r = .ok (answer, r')) : SameTypes r r' := by
  induction n generalizing last r with
  | zero =>
    cases h
    exact .refl _
  | succ n ih =>
    rcases callOnce_grows hf hname args r with ⟨e, hfail⟩ | ⟨q, o₀, o, ho, hkind, honce⟩
    · simp only [callTimes, hfail index r rfl] at h
      cases h
    · simp only [callTimes, honce index r rfl] at h
      exact (SameTypes.grown ho hkind).trans (ih h)

theorem sameTypes_step {b : Step} (hname : b.call ∈ Natives.growing) (hbind : b.bind = none)
    (h : step .skip index b r = .ok r') : SameTypes r r' := by
  obtain ⟨f, answer, r₁, hf, -, hcalls, rfl⟩ := step_eq_ok h
  obtain ⟨hmem, hcall⟩ := Registry.get?_some hf
  have hsettle : settle b answer r₁ = r₁ := by simp [settle, hbind]
  rw [hsettle]
  exact sameTypes_callTimes hmem (hcall ▸ hname) hcalls

/-! ### Drawing and growing -/

/-- **Drawing and growing commute**: the two steps come to the same in both orders, or fail in
both. -/
theorem steps_exchange {a b : Step} (ha : a.call ∈ Natives.drawing) (hb : b.call ∈ Natives.growing)
    (hanone : a.bind = none) (hbnone : b.bind = none) (index : Nat) (r : Run) :
    (steps .skip index [a, b] r).toOption = (steps .skip index [b, a] r).toOption := by
  have hpair : ∀ (a b : Step) (r : Run), steps .skip index [a, b] r =
      (step .skip index a r >>= step .skip (index + 1) b) := by
    intro a b r
    simp only [steps]
    cases step .skip index a r with
    | error e => rfl
    | ok r₁ => exact steps_singleton (index + 1) b r₁
  rw [hpair, hpair]
  rcases step_draws ha hanone r with ⟨e, hfail⟩ | ⟨e, n, hdraw⟩
  -- Growing changes no types, so drawing comes to the same after it as before.
  · rw [hfail index r (.refl r)]
    cases hgrow : step .skip index b r with
    | error e' => rfl
    | ok r₁ =>
      have hfail₁ := hfail (index + 1) r₁ (sameTypes_step hb hbnone hgrow)
      exact congrArg Except.toOption hfail₁.symm
  · rw [hdraw index r (.refl r)]
    have hlater := step_drawn hb hbnone index (index + 1) e n r
    cases hgrow : step .skip index b r with
    | error e' =>
      rw [hgrow] at hlater
      exact congrArg Except.toOption hlater
    | ok r₁ =>
      rw [hgrow] at hlater
      have hdraw₁ := hdraw (index + 1) r₁ (sameTypes_step hb hbnone hgrow)
      exact congrArg Except.toOption (hlater.trans hdraw₁.symm)

/-- The two runs have come to the same up to references: both hold what a third one holds, each
under references of its own. -/
def Alike (r r' : Run) : Prop :=
  ∃ (t : Run) (ρ ρ' : ObjectRef → ObjectRef), t.Renamed ρ r ∧ t.Renamed ρ' r'

/-- Steps may be replaced by as many others that come to the same or fail as well. -/
theorem toOption_steps_congr {snapshots : Snapshots} (before : List Step)
    {middle middle' : List Step} (after : List Step) (hlength : middle.length = middle'.length)
    (h : ∀ index r, (steps snapshots index middle r).toOption =
      (steps snapshots index middle' r).toOption) (index : Nat) (r : Run) :
    (steps snapshots index (before ++ middle ++ after) r).toOption =
      (steps snapshots index (before ++ middle' ++ after) r).toOption := by
  simp only [List.append_assoc, steps_append]
  cases steps snapshots index before r with
  | error e => rfl
  | ok r₁ =>
    have hmiddle := h (index + before.length) r₁
    simp only [bind, Except.bind, steps_append, hlength]
    cases hsteps : steps snapshots (index + before.length) middle r₁ <;>
      cases hsteps' : steps snapshots (index + before.length) middle' r₁ <;>
      rw [hsteps, hsteps'] at hmiddle <;> cases hmiddle <;> rfl

end Run

namespace Sketch

/-- A run comes to what it comes to without snapshots. -/
theorem run_unseen (s : Sketch) (snapshots : Snapshots) :
    (∃ e, s.run .skip = .error e ∧ s.run snapshots = .error e) ∨
    ∃ t r ρ, s.run .skip = .ok t ∧ s.run snapshots = .ok r ∧ t.Renamed ρ r := by
  cases snapshots with
  | keep => exact Run.steps_renamed 0 s.steps .fresh .fresh
  | skip =>
    cases hrun : s.run .skip with
    | error e => exact .inl ⟨e, rfl, rfl⟩
    | ok t => exact .inr ⟨t, t, id, rfl, rfl, .refl t⟩

/-- **A step that draws and a step that lets objects grow may change places**, if they are next to
each other and bind nothing. The sketch fails in both orders, or it comes to the same canvas, the
same number of frames and the same objects under the same names; the references are the same as
well, unless there are snapshots, whose copies are made at other moments. -/
theorem run_exchanged {s : Sketch} {before after : List Step} {a b : Step}
    (hs : s.steps = before ++ a :: b :: after)
    (hcalls : a.call ∈ Natives.drawing ∧ b.call ∈ Natives.growing ∨
      a.call ∈ Natives.growing ∧ b.call ∈ Natives.drawing)
    (ha : a.bind = none) (hb : b.bind = none) (snapshots : Snapshots) :
    let t : Sketch := { s with steps := before ++ b :: a :: after }
    (∃ e e', s.run snapshots = .error e ∧ t.run snapshots = .error e') ∨
    ∃ r r', s.run snapshots = .ok r ∧ t.run snapshots = .ok r' ∧
      r'.shown = r.shown ∧ r'.frames = r.frames ∧ r.Alike r' ∧
      (snapshots = .skip → r' = r) := by
  intro t
  have hpair : ∀ index r, (Run.steps .skip index [a, b] r).toOption =
      (Run.steps .skip index [b, a] r).toOption := by
    intro index r
    rcases hcalls with ⟨hdraw, hgrow⟩ | ⟨hgrow, hdraw⟩
    · exact Run.steps_exchange hdraw hgrow ha hb index r
    · exact (Run.steps_exchange hdraw hgrow hb ha index r).symm
  have hskip : (s.run .skip).toOption = (t.run .skip).toOption := by
    have hlength : [a, b].length = [b, a].length := rfl
    have hboth := Run.toOption_steps_congr before after hlength hpair 0 {}
    simpa [run, hs, t] using hboth
  rcases s.run_unseen snapshots with ⟨e, hsskip, hs'⟩ | ⟨c, r, ρ, hsskip, hs', hr⟩ <;>
    rcases t.run_unseen snapshots with ⟨e', htskip, ht'⟩ | ⟨c', r', ρ', htskip, ht', hr'⟩ <;>
    rw [hsskip, htskip] at hskip <;> cases hskip
  · exact .inl ⟨e, e', hs', ht'⟩
  · refine .inr ⟨r, r', hs', ht', hr'.shown_eq.trans hr.shown_eq.symm,
      hr'.frames.trans hr.frames.symm, ⟨c, ρ, ρ', hr, hr'⟩, ?_⟩
    rintro rfl
    cases hsskip.symm.trans hs'
    cases htskip.symm.trans ht'
    rfl

/-- The strokes of a gasket that goes on growing. -/
def stroking : Step := { call := "Apol.draw", args := [.binding "g"], times := 2 }

/-- The growth of a gasket. -/
def filling : Step := { call := "Apol.next", args := [.binding "g"], times := 3 }

/-- A sketch that draws a gasket before it is filled. -/
def drawnEarly : Sketch where
  name := "early"
  steps := [
    { call := "Apol", bind := some "g" },
    { call := "Apol.enclosing", args := [.binding "g", .number 2] }] ++ stroking :: filling :: [
    { call := "Apol.count", args := [.binding "g"], bind := some "n" }]

/-- The same sketch with the gasket filled before it is drawn. -/
def drawnLate : Sketch :=
  { drawnEarly with
    steps := drawnEarly.steps.take 2 ++ filling :: stroking :: drawnEarly.steps.drop 4 }

theorem run_exchanged_drawnEarly : stroking.call ∈ Natives.drawing ∧
    filling.call ∈ Natives.growing ∧ ∃ r r', drawnEarly.run .keep = .ok r ∧
      drawnLate.run .keep = .ok r' ∧ r.frames = 6 ∧ r'.frames = r.frames ∧ r'.shown = r.shown ∧
      r.Alike r' := by
  have hdraw : stroking.call ∈ Natives.drawing := by decide
  have hgrow : filling.call ∈ Natives.growing := by decide
  obtain ⟨r, hr, hsix⟩ : ∃ r, drawnEarly.run .keep = .ok r ∧ r.frames = 6 := ⟨_, rfl, rfl⟩
  rcases run_exchanged (s := drawnEarly) rfl (.inl ⟨hdraw, hgrow⟩) rfl rfl .keep with
    ⟨e, e', hfail, -⟩ | ⟨r₁, r', hr₁, hr', hshown, hframes, halike, -⟩
  · cases hr.symm.trans hfail
  · cases hr.symm.trans hr₁
    exact ⟨hdraw, hgrow, r, r', hr, hr', hsix, hframes, hshown, halike⟩

end Sketch

end Easel
