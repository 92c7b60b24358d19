import Easel.Proofs.Natives.Calls
import Easel.Proofs.Natives.Lookup

/-!
# Effects are confined

A call of a native reaches its receiver, the first argument, and nothing else that was there: only
the receiver can change, and only the receiver can come onto the canvas. This follows deed by deed,
so it holds however the objects are shared among the arguments, the stack and the canvas. A call
that fails changes nothing at all.
-/

namespace Easel

/-- From `m` to `m'` no more has changed than a call of the native `name` may change: its receiver
if it is a native that grows, and the end of the canvas if it is one that draws. -/
structure Machine.Confined (name : String) (args : List Value) (m m' : Machine) : Prop where
  others : ∀ q o, m.heap.get? q = some o → args.head? ≠ some (.object q) →
    m'.heap.get? q = some o
  receiver : ∀ q o, m.heap.get? q = some o → args.head? = some (.object q) →
    ∃ o', m'.heap.get? q = some o' ∧ o'.kind = o.kind ∧
      (name ∉ ["Apol.enclosing", "Apol.next", "Sierp.next"] → o' = o)
  canvas : m'.session.canvas = m.session.canvas ∨
    name ∈ Natives.drawing ∧ ∃ q c, args.head? = some (.object q) ∧
      m'.session.canvas = m.session.canvas.push ⟨q, c⟩

variable {d : Deed} {name : String} {args : List Value} {m m' : Machine} {result : ValueType}

/-- Where no object has changed, only the canvas is left to look at. -/
theorem Machine.Confined.of_kept
    (hkept : ∀ q o, m.heap.get? q = some o → m'.heap.get? q = some o)
    (hcanvas : m'.session.canvas = m.session.canvas ∨
      name ∈ Natives.drawing ∧ ∃ q c, args.head? = some (.object q) ∧
        m'.session.canvas = m.session.canvas.push ⟨q, c⟩) :
    m.Confined name args m' where
  others q o ho _ := hkept q o ho
  receiver q o ho _ := ⟨o, hkept q o ho, rfl, fun _ => rfl⟩
  canvas := hcanvas

namespace Deed

/-- A deed that fits reaches no further than its receiver. -/
theorem perform_confined (hfits : d.Fits result args m.heap) (hname : name ∈ d.doers) :
    m.Confined name args (d.perform m).2 := by
  cases d with
  | make o =>
    refine .of_kept (fun q p hp => ?_) (.inl rfl)
    exact (Heap.get?_alloc_of_lt m.heap o (Heap.get?_eq_some_lt hp)).trans hp
  | makeAll os =>
    refine .of_kept (fun q p hp => ?_) (.inl rfl)
    exact (Heap.get?_allocAll_of_lt m.heap os (Heap.get?_eq_some_lt hp)).trans hp
  | answer x => exact .of_kept (fun _ _ hp => hp) (.inl rfl)
  | refuse owner field known => exact .of_kept (fun _ _ hp => hp) (.inl rfl)
  | display r c =>
    obtain ⟨-, hr, -, -⟩ := hfits
    exact .of_kept (fun _ _ hp => hp) (.inr ⟨(mem_drawing hname).2 rfl, r, c, hr, rfl⟩)
  | grow r o =>
    obtain ⟨-, hr, o₀, ho₀, hkind⟩ := hfits
    refine ⟨fun q p hp hq => ?_, fun q p hp hq => ?_, .inl rfl⟩
    · have hne : r ≠ q := by
        rintro rfl
        exact hq hr
      exact (Heap.get?_set_of_ne m.heap o hne).trans hp
    · obtain rfl : r = q := by simpa using hr.symm.trans hq
      obtain rfl : o₀ = p := Option.some.inj (ho₀.symm.trans hp)
      refine ⟨o, Heap.get?_set_self m.heap o (Heap.get?_eq_some_lt hp), hkind.symm, ?_⟩
      exact fun hgrows => absurd hname hgrows

theorem machine_outcome (d : Deed) (result : ValueType) (m : Machine) :
    (d.outcome result m).2 = (d.perform m).2 := by
  cases d <;> rfl

end Deed

namespace Natives

variable {f : Native}

/-- **The effects of natives are confined.** On whatever machine a registered native is called and
with whatever arguments, and whether the call succeeds or fails: every object but the receiver stays
as it is; the receiver stays in its class, and changes only if the native lets it grow; and what is
on the canvas stays there, with at most the receiver added at the end, by a native that draws. A
call that fails leaves the whole machine as it was. -/
theorem confined (hf : f ∈ registry.natives) (args : List Value) (m : Machine) :
    m.Confined f.name args ((f.call args).run m).2 ∧
      ∀ e, ((f.call args).run m).1 = .error e → ((f.call args).run m).2 = m := by
  cases hr : f.resolve (args.map (Value.type m.heap)) with
  | error e =>
    rw [Native.run_call_mismatch f hr]
    exact ⟨.of_kept (fun _ _ ho => ho) (.inl rfl), fun _ _ => rfl⟩
  | ok r =>
    obtain ⟨d, hfits, hname, -, hcall⟩ := call_deed hf hr
    have hconfined := Deed.perform_confined hfits hname
    rw [← d.machine_outcome r.signature.result m] at hconfined
    rw [hcall]
    refine ⟨hconfined, fun e he => ?_⟩
    rcases d.outcome_ok_or r.signature.result m with ⟨answer, m', h⟩ | ⟨_, _, _, -, h⟩
    · rw [h] at he
      cases he
    · rw [h]

/-- A gasket that is on the canvas twice, and a point. -/
def crowded : Machine where
  heap := ⟨#[.apollonian (.empty .origin), .point ⟨.origin, none⟩]⟩
  session := { stack := [.object ⟨0⟩], canvas := #[⟨⟨0⟩, .black⟩, ⟨⟨0⟩, .black⟩] }

theorem confined_crowded : Apol.next ∈ registry.natives ∧
    crowded.Confined "Apol.next" [.object ⟨0⟩] ((Apol.next.call [.object ⟨0⟩]).run crowded).2 ∧
    ∃ e, ((Apol.next.call [.object ⟨1⟩]).run crowded).1 = .error e ∧
      ((Apol.next.call [.object ⟨1⟩]).run crowded).2 = crowded := by
  have hmem : Apol.next ∈ registry.natives :=
    (Registry.get?_some (show registry.get? "Apol.next" = some Apol.next from rfl)).1
  have hfail : ((Apol.next.call [.object ⟨1⟩]).run crowded).1 =
      .error (.typeMismatch "Apol.next" [.object .point] Apol.next.overloads.signatures) := rfl
  exact ⟨hmem, (confined hmem _ crowded).1, _, hfail, (confined hmem _ crowded).2 _ hfail⟩

end Natives

end Easel
