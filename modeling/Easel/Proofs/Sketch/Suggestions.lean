import Mathlib.Order.Bounds.Basic
import Easel.Proofs.Sketch.Findings
import Easel.Proofs.Sketch.Steps
import Easel.Proofs.Text.Case

/-!
# Suggestions

A name that is not registered may be a slip of case, in the whole name or in what stands before its
first point. The suggestion is the least registered name that such a slip leads to. As the names are
sorted, the first one found is the least. The check of a sketch and its run give the same advice.
-/

namespace Easel

/-- In a list in strictly increasing order, the first element found is the least. -/
theorem isLeast_of_find?_eq_some {α : Type} [LinearOrder α] {xs : List α} {p : α → Bool} {x : α}
    (h : xs.Pairwise (· < ·)) (hx : xs.find? p = some x) :
    IsLeast {y | y ∈ xs ∧ p y = true} x := by
  obtain ⟨hpx, before, after, rfl, hbefore⟩ := List.find?_eq_some_iff_append.1 hx
  refine ⟨⟨by simp, hpx⟩, ?_⟩
  rintro y ⟨hy, hpy⟩
  rcases List.mem_append.1 hy with hy | hy
  · have hnot := hbefore y hy
    simp [hpy] at hnot
  · rcases List.mem_cons.1 hy with rfl | hy
    · exact le_rfl
    · have hafter := (List.pairwise_append.1 h).2.1
      exact ((List.pairwise_cons.1 hafter).1 y hy).le

theorem find?_eq_some_iff_isLeast {α : Type} [LinearOrder α] {xs : List α} {p : α → Bool} {x : α}
    (h : xs.Pairwise (· < ·)) : xs.find? p = some x ↔ IsLeast {y | y ∈ xs ∧ p y = true} x := by
  constructor
  · exact isLeast_of_find?_eq_some h
  · intro hx
    cases hfind : xs.find? p with
    | none => exact absurd hx.1.2 (List.find?_eq_none.1 hfind x hx.1.1)
    | some y => rw [(isLeast_of_find?_eq_some h hfind).unique hx]

namespace Registry

variable {r : Registry} {name stem candidate : String}

/-- The registered names that equal the text but for the case of letters. -/
def variants (r : Registry) (text : String) : Set String :=
  {name | (∃ f ∈ r.natives, f.name = name) ∧ Text.EqualButCase name.toList text.toList}

/-- `stem` is the text before the first point of the name. -/
def IsStem (stem name : String) : Prop :=
  '.' ∉ stem.toList ∧ ∃ rest, name = stem ++ "." ++ rest

theorem stem?_eq_some : stem? name = some stem ↔ IsStem stem name := by
  rw [stem?]
  constructor
  · intro h
    split at h
    case isTrue hpoint =>
      obtain ⟨before, after, hlist, hbefore⟩ :=
        List.eq_append_cons_of_mem (List.contains_iff_mem.1 hpoint)
      rw [hlist, takeWhile_point hbefore] at h
      cases h
      refine ⟨by simpa using hbefore, String.ofList after, ?_⟩
      rw [← String.toList_inj, hlist]
      simp
    case isFalse => cases h
  · rintro ⟨hstem, rest, rfl⟩
    have hlist : (stem ++ "." ++ rest).toList = stem.toList ++ '.' :: rest.toList := by simp
    rw [hlist, takeWhile_point hstem]
    simp

/-- The first name found is the least of those that the search looks for. -/
theorem find?_names_eq_some {text : String} {p : String → Bool}
    (hp : ∀ s, p s = true ↔ Text.EqualButCase s.toList text.toList) :
    r.names.find? p = some candidate ↔ IsLeast (r.variants text) candidate := by
  have hset : {s | s ∈ r.names ∧ p s = true} = r.variants text := by
    ext s
    rw [Set.mem_ofPred_eq, mem_names, hp]
    rfl
  rw [find?_eq_some_iff_isLeast r.pairwise_names, hset]

theorem find?_names_eq_none {text : String} {p : String → Bool}
    (hp : ∀ s, p s = true ↔ Text.EqualButCase s.toList text.toList) :
    r.names.find? p = none ↔ r.variants text = ∅ := by
  rw [List.find?_eq_none, Set.eq_empty_iff_forall_notMem]
  constructor
  · rintro h s ⟨hs, hcase⟩
    exact h s (mem_names.2 hs) ((hp s).2 hcase)
  · intro h s hs hps
    exact h s ⟨mem_names.1 hs, (hp s).1 hps⟩

/-- The two comparisons of a search, in lower case and letter by letter, look for the same. -/
theorem lower_beq_iff {text : String} (s : String) :
    (Text.lower s.toList == Text.lower text.toList) = true ↔
      Text.EqualButCase s.toList text.toList := by
  rw [beq_iff_eq, Text.lower_eq_iff]

theorem suggest?_eq_some :
    r.suggest? name = some candidate ↔ IsLeast (r.variants name) candidate ∨
      r.variants name = ∅ ∧ ∃ stem, IsStem stem name ∧ IsLeast (r.variants stem) candidate := by
  simp only [suggest?]
  cases hfind : r.names.find? fun s => Text.lower s.toList == Text.lower name.toList with
  | some found =>
    have hleast := (find?_names_eq_some lower_beq_iff).1 hfind
    simp only [Option.some.injEq]
    constructor
    · rintro rfl
      exact .inl hleast
    · rintro (h | ⟨hempty, -⟩)
      · exact hleast.unique h
      · exact absurd hleast.1 (hempty ▸ Set.notMem_empty found)
  | none =>
    have hempty := (find?_names_eq_none lower_beq_iff).1 hfind
    simp only [Option.bind_eq_bind, Option.bind_eq_some_iff, stem?_eq_some,
      find?_names_eq_some fun _ => Text.alike_iff]
    constructor
    · exact fun h => .inr ⟨hempty, h⟩
    · rintro (h | ⟨-, h⟩)
      · exact absurd h.1 (hempty ▸ Set.notMem_empty candidate)
      · exact h

theorem suggest?_eq_none :
    r.suggest? name = none ↔
      r.variants name = ∅ ∧ ∀ stem, IsStem stem name → r.variants stem = ∅ := by
  simp only [suggest?]
  cases hfind : r.names.find? fun s => Text.lower s.toList == Text.lower name.toList with
  | some found =>
    have hleast := (find?_names_eq_some lower_beq_iff).1 hfind
    constructor
    · intro h
      cases h
    · rintro ⟨hempty, -⟩
      exact absurd hleast.1 (hempty ▸ Set.notMem_empty found)
  | none =>
    have hempty := (find?_names_eq_none lower_beq_iff).1 hfind
    simp only [Option.bind_eq_bind, Option.bind_eq_none_iff, stem?_eq_some,
      find?_names_eq_none fun _ => Text.alike_iff]
    exact ⟨fun h => ⟨hempty, h⟩, fun h => h.2⟩

/-- A suggestion is registered. -/
theorem get?_of_suggest? (h : r.suggest? name = some candidate) :
    ∃ f, r.get? candidate = some f := by
  have hvariant : ∃ text, candidate ∈ r.variants text := by
    rcases suggest?_eq_some.1 h with hleast | ⟨-, stem, -, hleast⟩
    · exact ⟨name, hleast.1⟩
    · exact ⟨stem, hleast.1⟩
  obtain ⟨text, ⟨f, hf, rfl⟩, -⟩ := hvariant
  exact ⟨f, get?_of_mem hf⟩

end Registry

namespace Sketch

variable {s : Sketch} {i : ℕ} {step : Step} {d : Diagnostic}

theorem slug_eq_unknownCallable {finding : Finding} (h : finding.slug = "unknown-callable") :
    ∃ name suggestion, finding = .unknownCallable name suggestion := by
  cases finding with
  | unknownCallable name suggestion => exact ⟨name, suggestion, rfl⟩
  | _ => simp [Finding.slug] at h

/-- Of a step whose native is not registered, the check reports just this with its code. -/
theorem unknownCallable_mem_checkCalls (h : s.steps[i]? = some step)
    (hcall : Natives.registry.get? step.call = none) :
    (d ∈ s.checkCalls ∧ d.step = some i ∧ d.finding.slug = "unknown-callable") ↔
      d = ⟨.unknownCallable step.call (Natives.registry.suggest? step.call), some i⟩ := by
  have hseen (types : TypeBindings) : (seenCall types step).1 =
      [.unknownCallable step.call (Natives.registry.suggest? step.call)] := by
    rw [seenCall, checkCall_unknown hcall]
  constructor
  · rintro ⟨hd, hi, hslug⟩
    obtain ⟨name, suggestion, hfinding⟩ := slug_eq_unknownCallable hslug
    have herror : d.severity = .error := by rw [Diagnostic.severity, hfinding, Finding.severity]
    obtain ⟨k, step', hk, finding, hfound, rfl⟩ := (error_mem_checkCalls herror).1 hd
    cases hi
    cases h.symm.trans hk
    rcases (mem_checkStep herror).1 hfound with ⟨_, _, _, _, hundefined⟩ | hfound
    · cases hfinding.symm.trans hundefined
    · rw [hseen] at hfound
      obtain rfl := List.mem_singleton.1 hfound
      rfl
  · rintro rfl
    refine ⟨(error_mem_checkCalls rfl).2 ⟨i, step, h, _, (mem_checkStep rfl).2 (.inr ?_), rfl⟩,
      rfl, rfl⟩
    rw [hseen]
    exact List.mem_singleton_self _

end Sketch

namespace Registry

/-- **Suggestions lead somewhere.** What is suggested for a name is registered. It is the least
registered name that equals the given one but for case; if there is none, the least that equals but
for case the text before the first point, if there is a point; and nothing is suggested if and only
if there is no such name either. Where a step of a sketch calls a native that is not registered, the
check reports it, and the step fails; the advice is the suggestion in the same words both times. -/
theorem suggestions_lead (r : Registry) (name : String) :
    (∀ candidate, r.suggest? name = some candidate → ∃ f, r.get? candidate = some f) ∧
      (∀ candidate, r.suggest? name = some candidate ↔ IsLeast (r.variants name) candidate ∨
        r.variants name = ∅ ∧ ∃ stem, IsStem stem name ∧ IsLeast (r.variants stem) candidate) ∧
      (r.suggest? name = none ↔
        r.variants name = ∅ ∧ ∀ stem, IsStem stem name → r.variants stem = ∅) ∧
      ∀ (s : Sketch) (i : ℕ) (step : Step), s.steps[i]? = some step → step.call = name →
        Natives.registry.get? name = none →
        ∃ hint,
          hint = (Natives.registry.suggest? name).map (fun c => "did you mean '" ++ c ++ "'?") ∧
          (∃ d ∈ s.checkCalls, d.step = some i ∧ d.finding.slug = "unknown-callable") ∧
          (∀ d ∈ s.checkCalls, d.step = some i → d.finding.slug = "unknown-callable" →
            d.finding.help = hint) ∧
          ∀ (snapshots : Snapshots) (run : Run), ∃ suggestion,
            Run.step snapshots i step run = .error (.unknownCallable name suggestion) ∧
              (Error.unknownCallable name suggestion).help = hint := by
  refine ⟨fun _ => get?_of_suggest?, fun _ => suggest?_eq_some, suggest?_eq_none, ?_⟩
  rintro s i step hstep rfl hcall
  refine ⟨_, rfl, ?_, ?_, ?_⟩
  · exact ⟨_, (Sketch.unknownCallable_mem_checkCalls hstep hcall).2 rfl⟩
  · intro d hd hi hslug
    rw [(Sketch.unknownCallable_mem_checkCalls hstep hcall).1 ⟨hd, hi, hslug⟩]
    rfl
  · intro snapshots run
    exact ⟨_, Run.step_unknown hcall, rfl⟩

/-- A sketch that calls a method that there is not, by a class whose name it misspells. -/
def misspelt : Sketch where
  name := "misspelt"
  steps := [{ call := "apol.explode" }]

theorem suggestions_lead_misspelt :
    Natives.registry.get? "apol.explode" = none ∧
      Natives.registry.suggest? "apol.explode" = some "Apol" ∧
      ∃ e, misspelt.run .skip = .error e ∧ e.help = some "did you mean 'Apol'?" ∧
        ∃ d ∈ misspelt.checkCalls, d.step = some 0 ∧ d.finding.help = e.help := by
  obtain ⟨-, hleast, -, hadvice⟩ := suggestions_lead Natives.registry "apol.explode"
  have hget : Natives.registry.get? "apol.explode" = none := rfl
  have hnone : Natives.registry.variants "apol.explode" = ∅ := by
    rw [Set.eq_empty_iff_forall_notMem]
    rintro s ⟨⟨f, hf, rfl⟩, hcase⟩
    have hdiffer : ∀ f ∈ Natives.registry.natives,
        ¬Text.EqualButCase f.name.toList "apol.explode".toList := by decide
    exact hdiffer f hf hcase
  have hstem : IsLeast (Natives.registry.variants "apol") "Apol" := by
    refine ⟨⟨⟨Natives.Apol.construct, ?_, rfl⟩, by decide⟩, ?_⟩
    · exact List.mem_cons_self
    · rintro s ⟨⟨f, hf, rfl⟩, hcase⟩
      have hsame : ∀ f ∈ Natives.registry.natives,
          Text.EqualButCase f.name.toList "apol".toList → f.name = "Apol" := by decide
      exact (hsame f hf hcase).ge
  have hsuggest : Natives.registry.suggest? "apol.explode" = some "Apol" :=
    (hleast _).2 (.inr ⟨hnone, "apol", ⟨by decide, "explode", by decide⟩, hstem⟩)
  obtain ⟨hint, hhint, ⟨d, hd, hi, hslug⟩, hchecked, hrun⟩ :=
    hadvice misspelt 0 { call := "apol.explode" } rfl rfl hget
  obtain ⟨suggestion, hstep, hhelp⟩ := hrun .skip {}
  rw [hsuggest] at hhint
  refine ⟨hget, hsuggest, .unknownCallable "apol.explode" suggestion, ?_, ?_, d, hd, hi, ?_⟩
  · exact (Run.steps_singleton 0 _ {}).trans hstep
  · rw [hhelp, hhint]
    rfl
  · rw [hhelp, hchecked d hd hi hslug]

end Registry

end Easel
