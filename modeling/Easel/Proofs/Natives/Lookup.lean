import Mathlib.Data.List.Nodup
import Mathlib.Data.List.Sort
import Mathlib.Data.String.Basic
import Easel.Natives.Registry

/-!
# Looking up natives

The index of a registry is filled in two loops, one over the classes and one over the methods of
each. What both keep is that every entry leads to a native of its name (`NativeIndex.Leads`), and
the keys come in the order of the natives, the last one first. As all names in a registry differ, a
native is found if and only if it is registered.

Methods of the library are found as well by their short names within their classes, because the
text before the first point of a full name is the name of the class.
-/

namespace Easel

namespace NativeIndex

/-- Every entry leads to a native of its name. -/
def Leads (classes : List NativeClass) (index : NativeIndex) : Prop :=
  ∀ e ∈ index, ∃ f, e.2.native? classes = some f ∧ f.name = e.1

variable {classes rest : List NativeClass} {c : NativeClass} {index : NativeIndex}
  {methods : List Native} {owner i : Nat}

theorem Leads.enter {f : Native} {slot : NativeSlot} (h : Leads classes index)
    (hf : slot.native? classes = some f) : Leads classes ((f.name, slot) :: index) := by
  intro e he
  rcases List.mem_cons.1 he with rfl | he
  · exact ⟨f, hf, rfl⟩
  · exact h e he

theorem getElem?_of_drop_eq_cons {α : Type} {xs ys : List α} {x : α} {n : Nat}
    (h : xs.drop n = x :: ys) : xs[n]? = some x ∧ xs.drop (n + 1) = ys := by
  constructor
  · rw [← List.head?_drop, h, List.head?_cons]
  · rw [← List.tail_drop, h, List.tail_cons]

theorem Leads.enterMethods (h : Leads classes index) (hc : classes[owner]? = some c)
    (hm : c.methods.drop i = methods) :
    Leads classes (enterMethods owner i methods index) := by
  induction methods generalizing i index with
  | nil => exact h
  | cons m methods ih =>
    obtain ⟨hget, hrest⟩ := getElem?_of_drop_eq_cons hm
    refine ih (h.enter ?_) hrest
    simp [NativeSlot.native?, hc, hget]

theorem Leads.enterClasses (h : Leads classes index) (hc : classes.drop owner = rest) :
    Leads classes (enterClasses owner rest index) := by
  induction rest generalizing owner index with
  | nil => exact h
  | cons c rest ih =>
    obtain ⟨hget, hrest⟩ := getElem?_of_drop_eq_cons hc
    have hconstructor : Leads classes ((c.constructor.name, ⟨owner, none⟩) :: index) :=
      h.enter (by simp [NativeSlot.native?, hget])
    exact ih (hconstructor.enterMethods hget (List.drop_zero)) hrest

theorem leads_ofClasses (classes : List NativeClass) : Leads classes (ofClasses classes) := by
  have hnil : Leads classes [] := fun e he => nomatch he
  exact hnil.enterClasses (List.drop_zero)

theorem keys_enterMethods :
    (enterMethods owner i methods index).map Prod.fst =
      (methods.map Native.name).reverse ++ index.map Prod.fst := by
  induction methods generalizing i index with
  | nil => rfl
  | cons m methods ih => simp [enterMethods, ih]

theorem keys_enterClasses :
    (enterClasses owner classes index).map Prod.fst =
      ((classes.flatMap NativeClass.natives).map Native.name).reverse ++ index.map Prod.fst := by
  induction classes generalizing owner index with
  | nil => rfl
  | cons c classes ih => simp [enterClasses, ih, keys_enterMethods, NativeClass.natives]

end NativeIndex

namespace Registry

variable {r : Registry} {name : String} {f g : Native}

theorem leads_index (r : Registry) : NativeIndex.Leads r.classes r.index := by
  rw [r.index_eq]
  exact NativeIndex.leads_ofClasses r.classes

theorem keys_index (r : Registry) : r.index.map Prod.fst = (r.natives.map Native.name).reverse := by
  rw [r.index_eq, NativeIndex.ofClasses, NativeIndex.keys_enterClasses]
  exact List.append_nil _

theorem mem_natives_of_native? {slot : NativeSlot} (h : slot.native? r.classes = some f) :
    f ∈ r.natives := by
  obtain ⟨owner, method⟩ := slot
  obtain ⟨c, hc, hf⟩ := Option.bind_eq_some_iff.1 h
  refine List.mem_flatMap.2 ⟨c, List.mem_of_getElem? hc, ?_⟩
  cases method with
  | none =>
    cases hf
    exact List.mem_cons_self
  | some i => exact List.mem_cons_of_mem _ (List.mem_of_getElem? hf)

/-- Natives of one name are the same. -/
theorem eq_of_name_eq (hf : f ∈ r.natives) (hg : g ∈ r.natives) (h : f.name = g.name) : f = g :=
  List.inj_on_of_nodup_map r.distinct hf hg h

/-- What is found is registered, and under this name. -/
theorem get?_some (h : r.get? name = some f) : f ∈ r.natives ∧ f.name = name := by
  obtain ⟨slot, hslot, hf⟩ := Option.bind_eq_some_iff.1 h
  obtain ⟨before, after, hindex, -⟩ := List.lookup_eq_some_iff.1 hslot
  have he : (name, slot) ∈ r.index := by simp [hindex]
  obtain ⟨g, hg, hname⟩ := r.leads_index _ he
  obtain rfl : f = g := Option.some.inj (hf.symm.trans hg)
  exact ⟨mem_natives_of_native? hf, hname⟩

/-- What is registered is found. -/
theorem get?_of_mem (hf : f ∈ r.natives) : r.get? f.name = some f := by
  have hkey : f.name ∈ r.index.map Prod.fst := by
    rw [keys_index, List.mem_reverse]
    exact List.mem_map_of_mem hf
  obtain ⟨e, he, hname⟩ := List.mem_map.1 hkey
  have hsome : (r.index.lookup f.name).isSome := by
    rw [List.lookup_isSome_iff]
    exact ⟨e, he, by simp [hname]⟩
  obtain ⟨slot, hslot⟩ := Option.isSome_iff_exists.1 hsome
  obtain ⟨before, after, hindex, -⟩ := List.lookup_eq_some_iff.1 hslot
  obtain ⟨g, hg, hgname⟩ := r.leads_index (f.name, slot) (by simp [hindex])
  have hget : r.get? f.name = some g := Option.bind_eq_some_iff.2 ⟨slot, hslot, hg⟩
  rw [hget, eq_of_name_eq (mem_natives_of_native? hg) hf hgname]

theorem get?_eq_some_iff : r.get? name = some f ↔ f ∈ r.natives ∧ f.name = name := by
  constructor
  · exact get?_some
  · rintro ⟨hf, rfl⟩
    exact get?_of_mem hf

theorem mem_names : name ∈ r.names ↔ ∃ f ∈ r.natives, f.name = name := by
  rw [names, List.mem_mergeSort, keys_index, List.mem_reverse, List.mem_map]

/-- The names are in strictly increasing order. -/
theorem pairwise_names (r : Registry) : r.names.Pairwise (· < ·) := by
  have hsorted : r.names.Pairwise (· ≤ ·) := List.pairwise_mergeSort' _ _
  have hdistinct : r.names.Pairwise (· ≠ ·) := by
    refine List.nodup_mergeSort.2 ?_
    rw [keys_index, List.nodup_reverse]
    exact r.distinct
  exact (hsorted.and hdistinct).imp fun h => lt_of_le_of_ne h.1 h.2

end Registry

/-! ## Short names -/

theorem takeWhile_point {s : List Char} (h : '.' ∉ s) (rest : List Char) :
    (s ++ '.' :: rest).takeWhile (· ≠ '.') = s := by
  have hs : ∀ x ∈ s, decide (x ≠ '.') = true := by
    intro x hx
    simpa using ne_of_mem_of_not_mem hx h
  rw [List.takeWhile_append_of_pos hs]
  simp

namespace NativeClass

variable {c : NativeClass} {f : Native} {short : String}

theorem shortName?_eq_some {rest : List Char} :
    c.shortName? f = some rest ↔ f.name.toList = c.kind.scriptName.toList ++ '.' :: rest := by
  rw [shortName?]
  simp only [Option.bind_eq_bind, Option.bind_eq_some_iff, List.isPrefixOf?_eq_some_iff_append_eq]
  constructor
  · rintro ⟨_, hname, rfl⟩
    exact hname.symm
  · intro hname
    exact ⟨_, hname.symm, rfl⟩

/-- A method of a class answers to a short name if its full name is that of the class, a point and
the short name. -/
theorem shortName?_beq :
    (c.shortName? f == some short.toList) = true ↔ f.name = c.kind.scriptName ++ "." ++ short := by
  rw [beq_iff_eq, shortName?_eq_some, ← String.toList_inj]
  simp

theorem method?_some (h : c.method? short = some f) :
    f ∈ c.methods ∧ f.name = c.kind.scriptName ++ "." ++ short := by
  have hanswers := List.find?_some h
  exact ⟨List.mem_of_find?_eq_some h, shortName?_beq.1 hanswers⟩

end NativeClass

namespace Natives

variable {c c' : NativeClass} {f : Native}

/-- What stands before the first point of a full name is the name of the class. -/
theorem takeWhile_name : ∀ c ∈ registry.classes, ∀ f ∈ c.natives,
    f.name.toList.takeWhile (· ≠ '.') = c.kind.scriptName.toList := by
  decide

theorem not_mem_constructor_name : ∀ c ∈ registry.classes, '.' ∉ c.constructor.name.toList := by
  decide

theorem not_mem_scriptName (kind : ObjectClass) : '.' ∉ kind.scriptName.toList := by
  cases kind <;> decide

/-- Classes of one name are the same. -/
theorem eq_of_scriptName_eq (hc : c ∈ registry.classes) (hc' : c' ∈ registry.classes)
    (h : c.kind.scriptName.toList = c'.kind.scriptName.toList) : c = c' := by
  have hdistinct : (registry.classes.map fun c => c.kind.scriptName.toList).Nodup := by decide
  exact List.inj_on_of_nodup_map hdistinct hc hc' h

/-- A native whose full name is that of a class, a point and a short name is a method of it. -/
theorem mem_methods_of_name (hc : c ∈ registry.classes) (hf : f ∈ registry.natives)
    {short : String} (h : f.name = c.kind.scriptName ++ "." ++ short) : f ∈ c.methods := by
  obtain ⟨c', hc', hf'⟩ := List.mem_flatMap.1 hf
  have hlist : f.name.toList = c.kind.scriptName.toList ++ '.' :: short.toList := by simp [h]
  obtain rfl : c = c' := by
    refine eq_of_scriptName_eq hc hc' ?_
    rw [← takeWhile_name c' hc' f hf', hlist, takeWhile_point (not_mem_scriptName c.kind)]
  rcases List.mem_cons.1 hf' with rfl | hmethod
  · exact absurd (by simp [hlist]) (not_mem_constructor_name c hc)
  · exact hmethod

/-- A method is found in its class by its short name as it is found in the library by its full
name. -/
theorem method?_eq_get? (hc : c ∈ registry.classes) (short : String) :
    c.method? short = registry.get? (c.kind.scriptName ++ "." ++ short) := by
  cases hm : c.method? short with
  | some m =>
    obtain ⟨hmethod, hname⟩ := NativeClass.method?_some hm
    have hmem : m ∈ registry.natives :=
      List.mem_flatMap.2 ⟨c, hc, List.mem_cons_of_mem _ hmethod⟩
    rw [← hname, Registry.get?_of_mem hmem]
  | none =>
    cases hget : registry.get? (c.kind.scriptName ++ "." ++ short) with
    | none => rfl
    | some f =>
      obtain ⟨hf, hname⟩ := Registry.get?_some hget
      have hmethod := mem_methods_of_name hc hf hname
      exact absurd (NativeClass.shortName?_beq.2 hname) (List.find?_eq_none.1 hm f hmethod)

/-- **Lookup is faithful.** In every registry, what is found under a name is the native that is
registered under it, and the names are those of the registered natives in strictly increasing order.
In every class of the library, what is found under a short name is what the whole library has under
the name of the class, a point and the short name; if it has nothing there, nothing is found. -/
theorem lookup_faithful (r : Registry) (name : String) :
    (∀ f, r.get? name = some f ↔ f ∈ r.natives ∧ f.name = name) ∧
      r.names.Pairwise (· < ·) ∧ (name ∈ r.names ↔ ∃ f ∈ r.natives, f.name = name) ∧
      ∀ c ∈ registry.classes,
        c.method? name = registry.get? (c.kind.scriptName ++ "." ++ name) :=
  ⟨fun _ => Registry.get?_eq_some_iff, r.pairwise_names, Registry.mem_names,
    fun _ hc => method?_eq_get? hc name⟩

/-- The class of gaskets. -/
def gaskets : NativeClass :=
  ⟨.apollonian, Apol.construct, [Apol.enclosing, Apol.next, Apol.count, Apol.draw]⟩

theorem lookup_faithful_gaskets : gaskets ∈ registry.classes ∧ Apol.next ∈ registry.natives ∧
    registry.get? "Apol.next" = some Apol.next ∧ gaskets.method? "next" = some Apol.next ∧
    gaskets.method? "Apol.next" = registry.get? "Apol.Apol.next" := by
  have hclass : gaskets ∈ registry.classes := List.mem_cons_self
  have hmem : Apol.next ∈ registry.natives :=
    List.mem_flatMap.2 ⟨gaskets, hclass, by simp [gaskets, NativeClass.natives]⟩
  obtain ⟨hget, -, -, hlong⟩ := lookup_faithful registry "Apol.next"
  obtain ⟨-, -, -, hshort⟩ := lookup_faithful registry "next"
  have hfound : registry.get? "Apol.next" = some Apol.next := (hget _).2 ⟨hmem, rfl⟩
  exact ⟨hclass, hmem, hfound, (hshort gaskets hclass).trans hfound, hlong gaskets hclass⟩

end Natives

end Easel
