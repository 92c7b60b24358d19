import Easel.Proofs.Script.Heaps

/-!
# References in values

The references that a value holds, and what becomes of the value when references are renamed. A
renaming matters to a value only as far as it concerns the references that the value holds.
-/

namespace Easel

namespace Value

mutual

/-- The references in a value, those in lists included. -/
def refs : Value → List ObjectRef
  | nothing => []
  | number _ => []
  | text _ => []
  | colour _ => []
  | list items => refsAll items
  | object r => [r]
  | native _ => []

def refsAll : List Value → List ObjectRef
  | [] => []
  | v :: vs => refs v ++ refsAll vs

end

theorem refsAll_eq_flatMap (vs : List Value) : refsAll vs = vs.flatMap refs := by
  induction vs with
  | nil => rfl
  | cons v vs ih => rw [refsAll, ih, List.flatMap_cons]

/-- A list of objects holds the references of these objects. -/
theorem refs_list_objects (rs : List ObjectRef) : (list (rs.map object)).refs = rs := by
  rw [refs, refsAll_eq_flatMap]
  induction rs with
  | nil => rfl
  | cons r rs ih => simpa [refs] using ih

mutual

/-- The value with every reference renamed. -/
def rename (ρ : ObjectRef → ObjectRef) : Value → Value
  | nothing => nothing
  | number x => number x
  | text s => text s
  | colour c => colour c
  | list items => list (renameAll ρ items)
  | object r => object (ρ r)
  | native name => native name

def renameAll (ρ : ObjectRef → ObjectRef) : List Value → List Value
  | [] => []
  | v :: vs => rename ρ v :: renameAll ρ vs

end

variable {ρ σ : ObjectRef → ObjectRef}

theorem renameAll_eq_map (ρ : ObjectRef → ObjectRef) (vs : List Value) :
    renameAll ρ vs = vs.map (rename ρ) := by
  induction vs with
  | nil => rfl
  | cons v vs ih => rw [renameAll, ih, List.map_cons]

theorem rename_list_objects (ρ : ObjectRef → ObjectRef) (rs : List ObjectRef) :
    (list (rs.map object)).rename ρ = list ((rs.map ρ).map object) := by
  rw [rename, renameAll_eq_map, List.map_map, List.map_map]
  rfl

mutual

@[simp] theorem rename_id : ∀ v : Value, v.rename id = v
  | nothing | number _ | text _ | colour _ | native _ | object _ => by simp only [rename, id]
  | list items => by rw [rename, renameAll_id items]

theorem renameAll_id : ∀ vs : List Value, renameAll id vs = vs
  | [] => rfl
  | v :: vs => by rw [renameAll, rename_id v, renameAll_id vs]

end

mutual

/-- Renamings that agree on the references in a value rename it alike. -/
theorem rename_congr : ∀ {v : Value}, (∀ r ∈ v.refs, ρ r = σ r) → v.rename ρ = v.rename σ
  | nothing, _ | number _, _ | text _, _ | colour _, _ | native _, _ => by simp only [rename]
  | object r, h => by simp only [rename, h r (by simp [refs])]
  | list items, h => by
    have hitems : renameAll ρ items = renameAll σ items := renameAll_congr h
    simp only [rename, hitems]

theorem renameAll_congr :
    ∀ {vs : List Value}, (∀ r ∈ refsAll vs, ρ r = σ r) → renameAll ρ vs = renameAll σ vs
  | [], _ => rfl
  | v :: vs, h => by
    have hv : v.rename ρ = v.rename σ := rename_congr fun r hr =>
      h r (List.mem_append_left _ hr)
    have hvs : renameAll ρ vs = renameAll σ vs := renameAll_congr fun r hr =>
      h r (List.mem_append_right _ hr)
    simp only [renameAll, hv, hvs]

end

end Value

end Easel
