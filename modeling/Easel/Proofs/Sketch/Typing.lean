import Easel.Proofs.Sketch.Findings
import Easel.Proofs.Sketch.Steps

/-!
# The check and the run side by side

The check knows types where the run has values. `Agrees` holds of the two after the same steps, as
long as the check has found no error in them: every name that is bound has a known type, and its
value is of this type. There is one exception. A step that is repeated zero times is checked as if
it ran, but binds `nothing`.
-/

namespace Easel

/-! ## Where a name was bound -/

namespace Step

variable {done : List Step} {s : Step} {name : String}

/-- The last of the steps that binds the name. -/
def binder? (done : List Step) (name : String) : Option Step :=
  done.reverse.find? fun s => s.bind == some name

theorem binder?_append_self (done : List Step) (h : s.bind = some name) :
    binder? (done ++ [s]) name = some s := by
  simp [binder?, h]

theorem binder?_append_of_ne (done : List Step) (h : s.bind ≠ some name) :
    binder? (done ++ [s]) name = binder? done name := by
  simp [binder?, h]

/-- The argument reads what a step without a run bound. -/
def Idle (done : List Step) (a : Arg) : Prop :=
  ∃ name b, a = .binding name ∧ binder? done name = some b ∧ b.times = 0

end Step

open Sketch (TypeBindings ArgType argType checkStep knownTypes seenCall)
open Step (binder? Idle)

/-! ## Bindings and their types -/

/-- What is known of the type of a name, and its value, given the step that bound it. -/
inductive Tracks (h : Heap) : Option Step → Option (Option ValueType) → Option Value → Prop where
  | unbound : Tracks h none none none
  | idle {b : Step} {t : ValueType} (never : b.times = 0) :
      Tracks h (some b) (some (some t)) (some .nothing)
  | made {b : Step} {v : Value} (runs : b.times ≠ 0) (live : v.Live h) :
      Tracks h (some b) (some (some (v.type h))) (some v)

theorem Tracks.evolves {h h' : Heap} {b : Option Step} {t : Option (Option ValueType)}
    {v : Option Value} (ht : Tracks h b t v) (he : h.Evolves h') : Tracks h' b t v := by
  cases ht with
  | unbound => exact .unbound
  | idle never => exact .idle never
  | made runs live =>
    rw [← live.type_evolves he]
    exact .made runs (live.evolves he)

theorem Tracks.isSome_value {h : Heap} {b : Option Step} {t : Option (Option ValueType)}
    {v : Option Value} (ht : Tracks h b t v) : v.isSome = b.isSome := by
  cases ht <;> rfl

/-- After the steps `done`, what is known of the bindings fits what they are. -/
def Agrees (done : List Step) (types : TypeBindings) (r : Run) : Prop :=
  ∀ name, Tracks r.machine.heap (binder? done name) (types.lookup name) (r.bindings.get? name)

namespace Agrees

variable {done : List Step} {types : TypeBindings} {r : Run} {a : Arg} {s : Step}

theorem nil : Agrees [] [] {} := fun _ => .unbound

theorem evolves (h : Agrees done types r) {r' : Run}
    (he : r.machine.heap.Evolves r'.machine.heap) (hb : r'.bindings = r.bindings) :
    Agrees done types r' := by
  intro name
  rw [hb]
  exact (h name).evolves he

/-- The run has bound the names that the steps bind. -/
theorem bound (h : Agrees done types r) :
    r.bound = fun name => done.any fun s => s.bind == some name := by
  funext name
  have hbinder : (done.any fun s => s.bind == some name) = (binder? done name).isSome := by
    rw [binder?, Bool.eq_iff_iff, List.find?_isSome, List.any_eq_true]
    simp only [List.mem_reverse]
  rw [hbinder, Run.bound]
  exact (h name).isSome_value

/-- The check calls undefined what the run has not bound. -/
theorem argType_undefined (h : Agrees done types r) {name : String} :
    argType types a = .undefined name ↔ a.unbound? r.bound = some name := by
  cases a with
  | binding n =>
    have ht := h n
    rw [Run.unbound?_binding_eq_some]
    simp only [argType]
    generalize binder? done n = b, types.lookup n = t, r.bindings.get? n = v at ht
    cases ht <;> simp
  | _ => simp [argType, Arg.unbound?]

theorem argType_known (h : Agrees done types r) (ha : a.unbound? r.bound = none) :
    ∃ t, argType types a = .known t := by
  cases a with
  | binding n =>
    have ht := h n
    obtain ⟨v, hv⟩ := Run.unbound?_binding_eq_none.1 ha
    rw [hv] at ht
    simp only [argType]
    generalize binder? done n = b, types.lookup n = t at ht
    cases ht with
    | idle never => exact ⟨_, rfl⟩
    | made runs live => exact ⟨_, rfl⟩
  | _ => exact ⟨_, rfl⟩

/-- The known type of an argument is that of its value, unless the argument is idle. -/
theorem argType_value (h : Agrees done types r) (ha : a.unbound? r.bound = none)
    (hidle : ¬ Idle done a) :
    argType types a = .known ((Run.valueOf r.bindings a).type r.machine.heap) := by
  cases a with
  | binding n =>
    have ht := h n
    have hruns : ∀ b, binder? done n = some b → b.times ≠ 0 :=
      fun b hb hzero => hidle ⟨n, b, rfl, hb, hzero⟩
    obtain ⟨v, hv⟩ := Run.unbound?_binding_eq_none.1 ha
    rw [hv] at ht
    simp only [argType, Run.valueOf, hv, Option.getD_some]
    generalize binder? done n = b, types.lookup n = t at ht hruns
    cases ht with
    | idle never => exact absurd never (hruns _ rfl)
    | made runs live => rfl
  | _ => rfl

theorem valueOf_idle (h : Agrees done types r) (hidle : Idle done a) :
    Run.valueOf r.bindings a = .nothing := by
  obtain ⟨n, b, rfl, hb, hzero⟩ := hidle
  have ht := h n
  simp only [Run.valueOf]
  rw [hb] at ht
  generalize types.lookup n = t, r.bindings.get? n = v at ht
  cases ht with
  | idle never => rfl
  | made runs live => exact absurd hzero runs

theorem live (h : Agrees done types r) (a : Arg) :
    (Run.valueOf r.bindings a).Live r.machine.heap := by
  cases a with
  | binding n =>
    have ht := h n
    simp only [Run.valueOf]
    generalize binder? done n = b, types.lookup n = t, r.bindings.get? n = v at ht
    cases ht with
    | made runs live => exact live
    | _ => exact fun _ hr => by cases hr
  | _ => exact fun _ hr => by cases hr

/-! ### All arguments of a step -/

/-- The first name that is not bound is among those that the check calls undefined. -/
theorem undefined_of_unbound (h : Agrees done types r) {name : String}
    (hu : s.unbound? r.bound = some name) : ∃ a ∈ s.args, argType types a = .undefined name := by
  obtain ⟨a, ha, hname⟩ := List.exists_of_findSome?_eq_some hu
  exact ⟨a, ha, h.argType_undefined.2 hname⟩

theorem not_undefined (h : Agrees done types r) (hu : s.unbound? r.bound = none) {name : String}
    (ha : a ∈ s.args) : argType types a ≠ .undefined name := by
  intro hname
  have hnone := List.findSome?_eq_none_iff.1 hu a ha
  rw [h.argType_undefined.1 hname] at hnone
  cases hnone

theorem knownTypes_bound (h : Agrees done types r) (hu : s.unbound? r.bound = none) :
    ∃ ts, knownTypes (s.args.map (argType types)) = some ts := by
  apply Sketch.knownTypes_isSome
  simp only [List.mem_map, forall_exists_index, and_imp, forall_apply_eq_imp_iff₂]
  exact fun a ha => h.argType_known (List.findSome?_eq_none_iff.1 hu a ha)

/-- The check knows the types that the call is resolved with. -/
theorem knownTypes_values (h : Agrees done types r) (hu : s.unbound? r.bound = none)
    (hidle : ∀ a ∈ s.args, ¬ Idle done a) :
    knownTypes (s.args.map (argType types)) =
      some ((s.args.map (Run.valueOf r.bindings)).map (Value.type r.machine.heap)) := by
  rw [Sketch.knownTypes_eq_some, List.map_map, List.map_map]
  exact List.map_congr_left fun a ha =>
    h.argType_value (List.findSome?_eq_none_iff.1 hu a ha) (hidle a ha)

end Agrees

end Easel
