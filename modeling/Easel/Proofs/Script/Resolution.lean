import Easel.Script.Native

/-!
# Resolution

An overload that is chosen for a call stands at its index among the signatures and has the types of
the arguments as its parameter types; the arguments then always bind to its parameters.

Signatures make a set of overloads if there are any and no two of them have the same parameter
types. At most one of a set matches a call, so their order decides nothing but the index.
-/

namespace Easel

theorem mem_intersperse {β : Type} (sep : β) {l : List β} {b : β} (h : b ∈ l) :
    b ∈ l.intersperse sep := by
  induction l with
  | nil => cases h
  | cons first l ih =>
    cases l with
    | nil => exact h
    | cons second l =>
      rw [List.intersperse_cons_cons]
      rcases List.mem_cons.1 h with rfl | h
      · exact List.mem_cons_self
      · exact List.mem_cons_of_mem _ (List.mem_cons_of_mem _ (ih h))

theorem infix_intercalate (sep : String) {l : List String} {line : String} (h : line ∈ l) :
    line.toList <:+: (sep.intercalate l).toList := by
  rw [String.toList_intercalate]
  exact List.infix_of_mem_flatten (mem_intersperse _ (List.mem_map_of_mem h))

/-- The advice on a failed call has a line for every overload. -/
theorem Signature.infix_describe {s : Signature} {signatures : List Signature} (name : String)
    (h : s ∈ signatures) :
    ("  " ++ name ++ s.text).toList <:+: (describe name signatures).toList := by
  have hline : "  " ++ name ++ s.text ∈ signatures.map fun s => "  " ++ name ++ s.text :=
    List.mem_map_of_mem h
  have hlist := (infix_intercalate "\n" hline).trans
    (List.suffix_append "available signatures:\n".toList _).isInfix
  rwa [← String.toList_append] at hlist

namespace Overloads

variable {o : Overloads} {name : String} {types : List ValueType}

/-- The chosen signature is the one at the chosen index, and its parameter types are the argument
types. -/
theorem resolve_ok {r : Resolved} (h : o.resolve name types = .ok r) :
    o.signatures[r.index]? = some r.signature ∧ r.signature.types = types := by
  unfold resolve at h
  split at h
  case h_1 signature index hf =>
    obtain rfl : (⟨index, signature⟩ : Resolved) = r := by simpa using h
    have hmem := List.mem_of_find?_eq_some hf
    have hacc := List.find?_some hf
    exact ⟨List.mem_zipIdx_iff_getElem?.1 hmem, by simpa using hacc⟩
  case h_2 => simp at h

/-- The error lists every signature. -/
theorem resolve_error {e : Error} (h : o.resolve name types = .error e) :
    e = .typeMismatch name types o.signatures := by
  unfold resolve at h
  split at h
  case h_1 => simp at h
  case h_2 => simpa using h.symm

/-- Resolution and the search for a signature that accepts the types find the same. -/
theorem resolve_find? (name : String) :
    (o.signatures.find? fun s => s.accepts types) =
      (o.resolve name types).toOption.map Resolved.signature := by
  unfold resolve
  have h : (o.signatures.zipIdx.find? fun s => s.1.accepts types).map Prod.fst =
      o.signatures.find? fun s => s.accepts types := by
    generalize 0 = k
    induction o.signatures generalizing k with
    | nil => rfl
    | cons s rest ih =>
      simp only [List.zipIdx_cons, List.find?_cons]
      cases s.accepts types with
      | true => rfl
      | false => exact ih (k + 1)
  rw [← h]
  cases o.signatures.zipIdx.find? fun s => s.1.accepts types <;> rfl

/-- Signatures with equal parameter types are the same overload. -/
theorem index_unique {i j : Nat} {s s' : Signature} (hi : o.signatures[i]? = some s)
    (hj : o.signatures[j]? = some s') (h : s.types = s'.types) : i = j ∧ s = s' := by
  have hlt : i < (o.signatures.map Signature.types).length := by
    simpa using (List.getElem?_eq_some_iff.1 hi).1
  have hindex : i = j := by
    refine (List.getElem?_inj hlt o.distinct).1 ?_
    rw [List.getElem?_map, List.getElem?_map, hi, hj, Option.map_some, Option.map_some, h]
  subst hindex
  exact ⟨rfl, Option.some.inj (hi.symm.trans hj)⟩

/-- The overload with these parameter types is chosen. -/
theorem resolve_of_types {i : Nat} {s : Signature} (name : String)
    (hi : o.signatures[i]? = some s) (h : s.types = types) :
    o.resolve name types = .ok ⟨i, s⟩ := by
  cases hr : o.resolve name types with
  | error e =>
    have hnone : (o.signatures.find? fun s => s.accepts types) = none := by
      rw [resolve_find? name, hr]
      rfl
    have hmem := List.mem_of_getElem? hi
    exact absurd (Signature.accepts_iff.2 h) (List.find?_eq_none.1 hnone s hmem)
  | ok r =>
    obtain ⟨hindex, htypes⟩ := resolve_ok hr
    obtain ⟨rfl, rfl⟩ := index_unique hi hindex (h.trans htypes.symm)
    rfl

theorem resolve_eq_ok_iff {i : Nat} {s : Signature} :
    o.resolve name types = .ok ⟨i, s⟩ ↔ o.signatures[i]? = some s ∧ s.types = types :=
  ⟨resolve_ok, fun h => resolve_of_types name h.1 h.2⟩

/-- Where no overload has these parameter types, none is chosen. -/
theorem resolve_of_forall_ne (name : String) (h : ∀ s ∈ o.signatures, s.types ≠ types) :
    o.resolve name types = .error (.typeMismatch name types o.signatures) := by
  cases hr : o.resolve name types with
  | error e => rw [resolve_error hr]
  | ok r =>
    obtain ⟨hindex, htypes⟩ := resolve_ok hr
    exact absurd htypes (h _ (List.mem_of_getElem? hindex))

/-- Two sets of the same signatures choose the same one, in whatever order they have them. -/
theorem resolve_of_perm {o' : Overloads} (h : o'.signatures.Perm o.signatures) (name : String)
    (types : List ValueType) :
    (o'.resolve name types).toOption.map Resolved.signature =
      (o.resolve name types).toOption.map Resolved.signature := by
  by_cases hmatch : ∃ s ∈ o.signatures, s.types = types
  case pos =>
    obtain ⟨s, hs, htypes⟩ := hmatch
    obtain ⟨i, hi⟩ := List.mem_iff_getElem?.1 hs
    obtain ⟨j, hj⟩ := List.mem_iff_getElem?.1 (h.mem_iff.2 hs)
    rw [resolve_of_types name hi htypes, resolve_of_types name hj htypes]
    rfl
  case neg =>
    have hnone : ∀ s ∈ o.signatures, s.types ≠ types := fun s hs htypes => hmatch ⟨s, hs, htypes⟩
    rw [resolve_of_forall_ne name hnone,
      resolve_of_forall_ne name fun s hs => hnone s (h.mem_iff.1 hs)]
    rfl

/-! ## Building a set of overloads -/

/-- Signatures with different parameter types do not clash. -/
theorem findClash_eq_none {seen rest : List Signature}
    (h : ((seen ++ rest).map Signature.types).Nodup) : findClash seen rest = none := by
  induction rest generalizing seen with
  | nil => rfl
  | cons s rest ih =>
    have hfresh : (seen.find? fun earlier => earlier.types == s.types) = none := by
      refine List.find?_eq_none.2 fun earlier hearlier heq => ?_
      rw [List.map_append, List.nodup_append] at h
      exact h.2.2 _ (List.mem_map_of_mem hearlier) _ List.mem_cons_self (beq_iff_eq.1 heq)
    rw [findClash, hfresh]
    exact ih (by simpa using h)

/-- A set is built from the signatures that it has, and from no others. -/
theorem ofList_eq_ok {signatures : List Signature} :
    ofList signatures = .ok o ↔ o.signatures = signatures := by
  constructor
  · intro h
    unfold ofList at h
    split at h
    · cases h
    · split at h <;> cases h
      rfl
  · rintro rfl
    have hclash : findClash [] o.signatures = none := findClash_eq_none o.distinct
    unfold ofList
    rw [dif_neg o.nonempty]
    split
    case h_1 hsome =>
      rw [hclash] at hsome
      cases hsome
    case h_2 => rfl

theorem exists_ofList_iff {signatures : List Signature} :
    (∃ o, ofList signatures = .ok o) ↔
      signatures ≠ [] ∧ signatures.Pairwise fun s t : Signature => s.types ≠ t.types := by
  simp only [ofList_eq_ok]
  constructor
  · rintro ⟨o, rfl⟩
    exact ⟨o.nonempty, List.pairwise_map.1 o.distinct⟩
  · rintro ⟨hne, hdistinct⟩
    exact ⟨⟨signatures, hne, List.pairwise_map.2 hdistinct⟩, rfl⟩

/-- **Resolution is unambiguous, and order does not matter.** Signatures make a set of overloads if
and only if there are any and no two of them have the same parameter types. A call resolves to the
signature at an index if and only if the types of its arguments are the parameter types of that
signature, which is the case for one index at most. If it is for none, the error names all
signatures, and its advice has a line for each. The same signatures in another order make a set as
well, and every call resolves to the same signature or fails with both. -/
theorem resolution_by_types (signatures : List Signature) :
    ((∃ o, ofList signatures = .ok o) ↔
      signatures ≠ [] ∧ signatures.Pairwise fun s t : Signature => s.types ≠ t.types) ∧
    ∀ o, ofList signatures = .ok o →
      (∀ (name : String) (types : List ValueType),
        (∀ (i : Nat) (s : Signature), o.resolve name types = .ok ⟨i, s⟩ ↔
          signatures[i]? = some s ∧ s.types = types) ∧
        (∀ (i j : Nat) (s t : Signature), signatures[i]? = some s → signatures[j]? = some t →
          s.types = types → t.types = types → i = j) ∧
        ((∀ s ∈ signatures, s.types ≠ types) →
          o.resolve name types = .error (.typeMismatch name types signatures)) ∧
        ∃ help, (Error.typeMismatch name types signatures).help = some help ∧
          ∀ s ∈ signatures, ("  " ++ name ++ s.text).toList <:+: help.toList) ∧
      ∀ signatures' : List Signature, signatures'.Perm signatures →
        ∃ o', ofList signatures' = .ok o' ∧ ∀ (name : String) (types : List ValueType),
          (o'.resolve name types).toOption.map Resolved.signature =
            (o.resolve name types).toOption.map Resolved.signature := by
  refine ⟨exists_ofList_iff, fun o ho => ?_⟩
  obtain ⟨hne, hdistinct⟩ := exists_ofList_iff.1 ⟨o, ho⟩
  obtain rfl := ofList_eq_ok.1 ho
  refine ⟨fun name types => ⟨fun i s => resolve_eq_ok_iff, fun i j s t hi hj hs ht => ?_,
    resolve_of_forall_ne name, ⟨_, rfl, fun s => Signature.infix_describe name⟩⟩,
    fun signatures' hperm => ?_⟩
  · exact (index_unique hi hj (hs.trans ht.symm)).1
  · obtain ⟨o', ho'⟩ := exists_ofList_iff.2
      ⟨fun hnil => hne (List.nil_perm.1 (hnil ▸ hperm)), hdistinct.perm hperm.symm Ne.symm⟩
    obtain rfl := ofList_eq_ok.1 ho'
    exact ⟨o', ho', resolve_of_perm hperm⟩

/-- Two overloads, of which one has a parameter more than the other. -/
def strokes : List Signature :=
  [.of [("self", .object .point)] .nothing,
    .of [("self", .object .point), ("stroke", .colour)] .nothing]

theorem resolution_by_types_strokes :
    ∃ o o', ofList strokes = .ok o ∧ ofList strokes.reverse = .ok o' ∧
      strokes.reverse.Perm strokes ∧ (∀ s ∈ strokes, s.types ≠ [.colour]) ∧
      (∀ (i : Nat) (s : Signature), strokes[i]? = some s → s.types = [.object .point] → i = 0) ∧
      o.resolve "Point.draw" [.colour] = .error (.typeMismatch "Point.draw" [.colour] strokes) ∧
      (o'.resolve "Point.draw" [.object .point]).toOption.map Resolved.signature =
        (o.resolve "Point.draw" [.object .point]).toOption.map Resolved.signature := by
  obtain ⟨hbuilt, hset⟩ := resolution_by_types strokes
  obtain ⟨o, ho⟩ := hbuilt.2 (by decide)
  have hnone : ∀ s ∈ strokes, s.types ≠ [.colour] := by decide
  obtain ⟨hresolve, hperm⟩ := hset o ho
  obtain ⟨-, hunique, -, -⟩ := hresolve "Point.draw" [.object .point]
  obtain ⟨-, -, hmismatch, -⟩ := hresolve "Point.draw" [.colour]
  obtain ⟨o', ho', hsame⟩ := hperm strokes.reverse strokes.reverse_perm
  exact ⟨o, o', ho, ho', strokes.reverse_perm, hnone,
    fun i s hi hs => hunique i 0 s _ hi rfl hs rfl, hmismatch hnone, hsame _ _⟩

end Overloads

namespace Args

theorem mismatch?_eq_none {h : Heap} {params : List Param} {values : List Value}
    (ht : params.map Param.type = values.map (Value.type h)) :
    mismatch? h params values = none := by
  induction params generalizing values with
  | nil => rfl
  | cons p ps ih =>
    cases values with
    | nil => rfl
    | cons v vs =>
      simp only [List.map_cons, List.cons.injEq] at ht
      simp only [mismatch?, ht.1, if_true]
      exact ih ht.2

/-- Values of the parameter types bind. -/
theorem bind_ok {h : Heap} {callee : String} {r : Resolved} {values : List Value}
    (ht : r.signature.types = values.map (Value.type h)) :
    bind h callee r values = .ok ⟨callee, r.index, values⟩ := by
  have hlen : r.signature.params.length = values.length := by
    simpa [Signature.types] using congrArg List.length ht
  have hnone : mismatch? h r.signature.params values = none := mismatch?_eq_none ht
  simp only [bind, hlen, ne_eq, not_true_eq_false, if_false, hnone]

end Args

end Easel
