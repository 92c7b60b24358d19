import Easel.Proofs.Sketch.Typing

/-!
# One step, checked and run

What the check finds in a step decides what the run of the step comes to, given that the two agree
before it. Where the check finds no error, the step fails only over an unknown field, or over an
argument that is idle; and after it the two agree again.
-/

namespace Easel

open Sketch (TypeBindings argType checkStep knownTypes seenCall)
open Step (binder? Idle)

/-- The check finds no error in the step. -/
def Sketch.Clean (types : TypeBindings) (s : Step) : Prop :=
  ∀ finding ∈ (checkStep types s).1, finding.severity ≠ .error

/-- How the findings in a step announce the error that its run ends with. An unknown callable comes
before anything that is wrong with the arguments, and of the names that are not bound the first is
reported. -/
inductive Announces (found : List Finding) (unbound : Option String) : Error → Prop where
  | callable {name : String} {suggestion : Option String}
      (h : .unknownCallable name suggestion ∈ found) :
      Announces found unbound (.unknownCallable name suggestion)
  | binding {name : String} (known : ∀ call suggestion, .unknownCallable call suggestion ∉ found)
      (h : .undefinedBinding name ∈ found) (first : unbound = some name) :
      Announces found unbound (.unknownBinding name)
  | types {call : String} {attempted : List ValueType} {available : List Signature} {e : Error}
      (known : ∀ call suggestion, .unknownCallable call suggestion ∉ found)
      (bound : ∀ name, .undefinedBinding name ∉ found)
      (h : .typeMismatch call attempted available ∈ found)
      (he : e = .typeMismatch call attempted available)
      (help : e.help = (Finding.typeMismatch call attempted available).help) :
      Announces found unbound e

namespace Agrees

variable {snapshots : Snapshots} {index : Nat} {done : List Step} {types : TypeBindings}
  {r r' : Run} {s : Step}

/-! ## What a clean step calls -/

/-- The call of a clean step can be resolved with the types that the check knows. -/
theorem resolves (h : Agrees done types r) (hc : Sketch.Clean types s) :
    ∃ f ts chosen, Natives.registry.get? s.call = some f ∧ s.unbound? r.bound = none ∧
      knownTypes (s.args.map (argType types)) = some ts ∧ f.resolve ts = .ok chosen ∧
      (seenCall types s).2 = some chosen.signature.result := by
  have hcall : ∀ finding ∈ (seenCall types s).1, finding.severity ≠ .error := by
    intro finding hfound herror
    exact hc finding ((Sketch.mem_checkStep herror).2 (.inr hfound)) herror
  cases hf : Natives.registry.get? s.call with
  | none =>
    rw [seenCall, Sketch.checkCall_unknown hf] at hcall
    exact absurd rfl (hcall _ List.mem_cons_self)
  | some f =>
    cases hu : s.unbound? r.bound with
    | some name =>
      obtain ⟨a, ha, hname⟩ := h.undefined_of_unbound hu
      exact absurd rfl (hc (.undefinedBinding name)
        ((Sketch.mem_checkStep rfl).2 (.inl ⟨a, ha, name, hname, rfl⟩)))
    | none =>
      obtain ⟨ts, hts⟩ := h.knownTypes_bound hu
      cases hr : f.resolve ts with
      | error e =>
        rw [seenCall, Sketch.checkCall_refused hf hts hr] at hcall
        exact absurd rfl (hcall _ List.mem_cons_self)
      | ok chosen =>
        refine ⟨f, ts, chosen, rfl, rfl, hts, hr, ?_⟩
        rw [seenCall, Sketch.checkCall_accepted hf hts hr]

/-- Binding the answer keeps the agreement if the answer fits the type that the check records. -/
theorem settle (h : Agrees done types r) {t : ValueType} {answer : Option Value}
    (ht : (seenCall types s).2 = some t)
    (hanswer : Tracks r.machine.heap (some s) (some (some t)) (some (answer.getD .nothing))) :
    Agrees (done ++ [s]) (checkStep types s).2 (Run.settle s answer r) := by
  intro name
  rw [Sketch.checkStep_types, Run.settle]
  cases hb : s.bind with
  | none =>
    rw [Step.binder?_append_of_ne done (by simp [hb])]
    exact h name
  | some bound =>
    by_cases hname : name = bound
    · subst hname
      rw [Step.binder?_append_self done hb]
      simp only [List.lookup_cons_self, Bindings.get?_insert_self, ht]
      exact hanswer
    · have hne : (name == bound) = false := by simpa using hname
      rw [Step.binder?_append_of_ne done (by simpa [hb] using Ne.symm hname)]
      simp only [List.lookup_cons, hne, Bindings.get?_insert_of_ne _ _ hname]
      exact h name

/-! ## What a step comes to -/

/-- A clean step whose arguments are not idle goes well, unless a field is unknown. -/
theorem step_clean (h : Agrees done types r) (hc : Sketch.Clean types s)
    (hidle : s.times ≠ 0 → ∀ a ∈ s.args, ¬ Idle done a) :
    (∃ r', Run.step snapshots index s r = .ok r' ∧
      Agrees (done ++ [s]) (checkStep types s).2 r') ∨
    ∃ owner field known,
      Run.step snapshots index s r = .error (.unknownField owner field known) := by
  obtain ⟨f, ts, chosen, hf, hu, hts, hr, hresult⟩ := h.resolves hc
  rw [Run.step_bound hf hu]
  by_cases htimes : s.times = 0
  · left
    rw [htimes]
    exact ⟨Run.settle s none r, rfl, h.settle hresult (.idle htimes)⟩
  · rw [h.knownTypes_values hu (hidle htimes), Option.some.injEq] at hts
    subst hts
    have hlive : ∀ v ∈ s.args.map (Run.valueOf r.bindings), v.Live r.machine.heap := by
      intro v hv
      obtain ⟨a, -, rfl⟩ := List.mem_map.1 hv
      exact h.live a
    rcases Run.callTimes_answered snapshots index (Registry.get?_some hf).1
        (Nat.pos_of_ne_zero htimes) none hlive hr with
      ⟨answer, r', hcalls, hans⟩ | ⟨owner, field, known, hcalls⟩
    · left
      rw [hcalls]
      have htrack := Tracks.made htimes hans.live
      rw [hans.type] at htrack
      exact ⟨Run.settle s answer r', rfl,
        (h.evolves hans.evolves hans.bindings).settle hresult htrack⟩
    · right
      rw [hcalls]
      exact ⟨owner, field, known, rfl⟩

/-- No overload takes an idle argument. -/
theorem step_idle (h : Agrees done types r) (hc : Sketch.Clean types s) (htimes : s.times ≠ 0)
    {a : Arg} (ha : a ∈ s.args) (hidle : Idle done a) :
    ∃ attempted available, .nothing ∈ attempted ∧
      Run.step snapshots index s r = .error (.typeMismatch s.call attempted available) := by
  obtain ⟨f, -, -, hf, hu, -⟩ := h.resolves hc
  obtain ⟨hmem, hname⟩ := Registry.get?_some hf
  have hnothing : .nothing ∈ (s.args.map (Run.valueOf r.bindings)).map
      (Value.type r.machine.heap) := by
    refine List.mem_map.2 ⟨.nothing, List.mem_map.2 ⟨a, ha, h.valueOf_idle hidle⟩, rfl⟩
  refine ⟨_, f.overloads.signatures, hnothing, ?_⟩
  rw [Run.step_bound hf hu, Run.callTimes_mismatch (Nat.pos_of_ne_zero htimes) none
    (Natives.resolve_nothing hmem hnothing), hname]
  rfl

/-- **The check and the run agree after a step that they agreed before**, if the check found no
error in it and the run came past it. -/
theorem step (h : Agrees done types r) (hc : Sketch.Clean types s)
    (hr : Run.step snapshots index s r = .ok r') :
    Agrees (done ++ [s]) (checkStep types s).2 r' := by
  have hidle : s.times ≠ 0 → ∀ a ∈ s.args, ¬ Idle done a := by
    intro htimes a ha hidle
    obtain ⟨attempted, available, -, hfail⟩ := h.step_idle hc htimes ha hidle
    cases hr.symm.trans hfail
  rcases h.step_clean hc hidle with ⟨r₁, hr₁, hagrees⟩ | ⟨owner, field, known, hfail⟩
  · cases hr.symm.trans hr₁
    exact hagrees
  · cases hr.symm.trans hfail

/-! ## What the check announces -/

section Announced

variable {f : Native} {found : List Finding}
  (hfound : ∀ finding, finding ∈ found ↔
    finding.severity = .error ∧ finding ∈ (checkStep types s).1)
include hfound

theorem mem_found {finding : Finding} (herror : finding.severity = .error) :
    finding ∈ found ↔ (∃ a ∈ s.args, ∃ name, argType types a = .undefined name ∧
      finding = .undefinedBinding name) ∨ finding ∈ (seenCall types s).1 := by
  rw [hfound, Sketch.mem_checkStep herror, and_iff_right herror]

theorem unknownCallable_not_mem_found (hf : Natives.registry.get? s.call = some f)
    (call : String) (suggestion : Option String) : .unknownCallable call suggestion ∉ found := by
  intro hin
  rcases (mem_found hfound rfl).1 hin with ⟨_, _, _, _, hne⟩ | hin
  · cases hne
  · obtain ⟨ts, hne⟩ := Sketch.mem_seenCall hf hin
    cases hne

theorem undefinedBinding_not_mem_found (h : Agrees done types r)
    (hf : Natives.registry.get? s.call = some f) (hu : s.unbound? r.bound = none)
    (name : String) : .undefinedBinding name ∉ found := by
  intro hin
  rcases (mem_found hfound rfl).1 hin with ⟨a, ha, name', hname, -⟩ | hin
  · exact h.not_undefined hu ha hname
  · obtain ⟨ts, hne⟩ := Sketch.mem_seenCall hf hin
    cases hne

end Announced

/-- A step whose call resolves with the types that the check knows is clean. -/
theorem clean_of_resolves {f : Native} {ts : List ValueType} {chosen : Resolved}
    (h : Agrees done types r) (hf : Natives.registry.get? s.call = some f)
    (hu : s.unbound? r.bound = none) (hts : knownTypes (s.args.map (argType types)) = some ts)
    (hr : f.resolve ts = .ok chosen) : Sketch.Clean types s := by
  intro finding hfinding herror
  rcases (Sketch.mem_checkStep herror).1 hfinding with ⟨a, ha, name, hname, -⟩ | hin
  · exact h.not_undefined hu ha hname
  · rw [seenCall, Sketch.checkCall_accepted hf hts hr] at hin
    cases hin

/-- A step in which the check finds an error ends with the error announced, if it runs and its
arguments are not idle. -/
theorem step_announced (h : Agrees done types r) (hc : ¬ Sketch.Clean types s)
    (htimes : s.times ≠ 0) (hidle : ∀ a ∈ s.args, ¬ Idle done a) {found : List Finding}
    (hfound : ∀ finding, finding ∈ found ↔
      finding.severity = .error ∧ finding ∈ (checkStep types s).1) :
    ∃ e, Run.step snapshots index s r = .error e ∧ Announces found (s.unbound? r.bound) e := by
  cases hf : Natives.registry.get? s.call with
  | none =>
    refine ⟨_, Run.step_unknown hf, .callable ((mem_found hfound rfl).2 (.inr ?_))⟩
    rw [seenCall, Sketch.checkCall_unknown hf]
    exact List.mem_cons_self
  | some f =>
    have hknown := unknownCallable_not_mem_found hfound hf
    cases hu : s.unbound? r.bound with
    | some name =>
      obtain ⟨a, ha, hname⟩ := h.undefined_of_unbound hu
      exact ⟨_, Run.step_unbound hf hu,
        .binding hknown ((mem_found hfound rfl).2 (.inl ⟨a, ha, name, hname, rfl⟩)) rfl⟩
    | none =>
      have hbound := undefinedBinding_not_mem_found hfound h hf hu
      have hts := h.knownTypes_values hu hidle
      generalize htypes : (s.args.map (Run.valueOf r.bindings)).map (Value.type r.machine.heap) =
        ts at hts
      cases hr : f.resolve ts with
      | error e =>
        have hin : .typeMismatch s.call ts f.overloads.signatures ∈ found := by
          refine (mem_found hfound rfl).2 (.inr ?_)
          rw [seenCall, Sketch.checkCall_refused hf hts hr]
          exact List.mem_cons_self
        have hfail : Run.step snapshots index s r = .error e := by
          rw [Run.step_bound hf hu, Run.callTimes_mismatch (Nat.pos_of_ne_zero htimes) none
            (htypes ▸ hr)]
          rfl
        have he : e = .typeMismatch s.call ts f.overloads.signatures := by
          rw [Overloads.resolve_error hr, (Registry.get?_some hf).2]
        exact ⟨e, hfail, .types hknown hbound hin he (by rw [he]; rfl)⟩
      | ok chosen => exact absurd (h.clean_of_resolves hf hu hts hr) hc

end Agrees

end Easel
