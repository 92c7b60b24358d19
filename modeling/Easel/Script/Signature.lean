import Easel.Script.ValueType

/-!
# Signatures

A signature lists the parameters of one overload and its result type. A call matches it when the
argument types are the parameter types, in order: nothing is converted and nothing is left out.
-/

namespace Easel

/-- A named parameter; the name is shown to people and plays no part in matching. -/
structure Param where
  name : String
  type : ValueType
  deriving DecidableEq, Repr

/-- The parameters and the result type of one overload. -/
structure Signature where
  params : List Param
  result : ValueType
  deriving DecidableEq, Repr

namespace Signature

/-- A signature from the names and types of its parameters. -/
def of (params : List (String × ValueType)) (result : ValueType) : Signature :=
  ⟨params.map fun p => ⟨p.1, p.2⟩, result⟩

def types (s : Signature) : List ValueType := s.params.map Param.type

def arity (s : Signature) : Nat := s.params.length

/-- Whether a call with arguments of these types matches: there are as many of them as parameters,
and each is the type of its parameter. -/
def accepts (s : Signature) (args : List ValueType) : Bool :=
  s.arity == args.length && (s.params.zip args).all fun p => p.1.type == p.2

/-- The signature as listings show it. -/
def text (s : Signature) : String :=
  let params := s.params.map fun p => p.name ++ ": " ++ p.type.name
  "(" ++ ", ".intercalate params ++ ") -> " ++ s.result.name

/-- One line for each overload of a name. -/
def describe (name : String) (signatures : List Signature) : String :=
  "available signatures:\n" ++ "\n".intercalate (signatures.map fun s => "  " ++ name ++ s.text)

@[simp] theorem accepts_iff {s : Signature} {args : List ValueType} :
    s.accepts args = true ↔ s.types = args := by
  obtain ⟨params, result⟩ := s
  simp only [accepts, arity, types, Bool.and_eq_true, beq_iff_eq]
  induction params generalizing args with
  | nil => cases args <;> simp
  | cons p params ih =>
    cases args with
    | nil => simp
    | cons a args =>
      rw [List.map_cons, List.cons.injEq, ← ih]
      simp only [List.length_cons, Nat.add_right_cancel_iff, List.zip_cons_cons, List.all_cons,
        Bool.and_eq_true, beq_iff_eq]
      exact and_left_comm

end Signature

end Easel
