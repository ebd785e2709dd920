import ClassShape.ClassRecord

/-! Signatures: what is left of a member when its name, and the names of its parameters, are
forgotten. Two signatures are equal when their parts are, whatever their texts. A tally says how
often each item was added, in the order of first additions. -/
namespace ClassShape

structure AttributeSignature where
  modifier : Modifier
  type : String
deriving DecidableEq

structure MethodSignature where
  modifier : Modifier
  returnType : String
  parameterTypes : List String
deriving DecidableEq

def AttributeSignature.text (s : AttributeSignature) : String :=
  s.modifier.name ++ "|" ++ s.type

def MethodSignature.text (s : MethodSignature) : String :=
  s.modifier.name ++ "|" ++ s.returnType ++ "|" ++ ",".intercalate s.parameterTypes

def Attribute.signature (a : Attribute) : AttributeSignature := ⟨a.modifier, a.type⟩

def Method.signature (m : Method) : MethodSignature :=
  ⟨m.modifier, m.returnType, m.parameters.map Parameter.type⟩

structure Tally (α : Type) where
  entries : List (α × Nat)
  /-- Where in `entries` an item stands. -/
  positions : List (α × Nat)
deriving DecidableEq

namespace Tally
variable {α : Type} [DecidableEq α]

def empty : Tally α := ⟨[], []⟩

def add (t : Tally α) (a : α) : Tally α :=
  match t.positions.lookup a with
  | some i => ⟨t.entries.modify i fun e => (e.1, e.2 + 1), t.positions⟩
  | none => ⟨t.entries ++ [(a, 1)], (a, t.entries.length) :: t.positions⟩

def get? (t : Tally α) (a : α) : Option Nat :=
  (t.positions.lookup a).bind fun i => t.entries[i]?.map (·.2)

def size (t : Tally α) : Nat := t.entries.length

def isEmpty (t : Tally α) : Bool := t.entries.isEmpty

def addAll (t : Tally α) (as : List α) : Tally α := as.foldl add t

def ofList (as : List α) : Tally α := addAll empty as

end Tally
end ClassShape
