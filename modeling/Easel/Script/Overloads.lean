import Easel.Error

/-!
# Overloads

The overloads of one name are a non-empty list of signatures with pairwise different parameter
types, so that at most one of them matches a call.
-/

namespace Easel

/-- The overloads of one name. -/
structure Overloads where
  signatures : List Signature
  nonempty : signatures ≠ []
  distinct : (signatures.map Signature.types).Nodup

/-- The overload chosen for a call. -/
structure Resolved where
  /-- The position of the signature among the overloads. -/
  index : Nat
  signature : Signature
  deriving DecidableEq, Repr

namespace Overloads

/-- The first signature with the parameter types of an earlier one, with that earlier one;
`seen` holds the earlier ones. -/
def findClash (seen : List Signature) : List Signature → Option (Signature × Signature)
  | [] => none
  | s :: rest =>
    match seen.find? fun earlier => earlier.types == s.types with
    | some earlier => some (earlier, s)
    | none => findClash (seen ++ [s]) rest

theorem nodup_of_findClash_eq_none {seen rest : List Signature}
    (hs : (seen.map Signature.types).Nodup) (h : findClash seen rest = none) :
    ((seen ++ rest).map Signature.types).Nodup := by
  induction rest generalizing seen with
  | nil => simpa using hs
  | cons s rest ih =>
    simp only [findClash] at h
    split at h
    · simp at h
    · rename_i hf
      have hfresh : ∀ e ∈ seen, e.types ≠ s.types := by simpa using hf
      have hs' : ((seen ++ [s]).map Signature.types).Nodup := by
        rw [List.map_append, List.nodup_append]
        refine ⟨hs, by simp, ?_⟩
        intro a ha b hb
        obtain ⟨e, he, rfl⟩ := List.mem_map.1 ha
        obtain rfl : b = s.types := by simpa using hb
        exact hfresh e he
      simpa using ih hs' h

/-- Builds the overloads from their signatures. -/
def ofList (signatures : List Signature) : Except Error Overloads :=
  if hne : signatures = [] then .error (.build .noSignatures)
  else match h : findClash [] signatures with
    | some (earlier, later) => .error (.build (.ambiguous earlier later))
    | none => .ok ⟨signatures, hne, by simpa using nodup_of_findClash_eq_none (by simp) h⟩

/-- The overload whose parameter types are the argument types; `name` labels the error. -/
def resolve (o : Overloads) (name : String) (args : List ValueType) : Except Error Resolved :=
  match o.signatures.zipIdx.find? fun s => s.1.accepts args with
  | some (signature, index) => .ok ⟨index, signature⟩
  | none => .error (.typeMismatch name args o.signatures)

end Overloads

end Easel
