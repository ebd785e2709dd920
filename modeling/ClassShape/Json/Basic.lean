/-! JSON values. Objects keep the order of their fields; a number that is not a count keeps its
spelling. A record is an object with named fields, or an array with the same fields in their fixed
order; fields of other names are ignored. -/
namespace ClassShape

inductive Json where
  | null
  | bool (b : Bool)
  | count (n : Nat)
  | number (spelling : String)
  | string (s : String)
  | array (items : List Json)
  | object (fields : List (String × Json))

namespace Json

def ofOption {α : Type} (f : α → Json) : Option α → Json
  | some a => f a
  | none => null

def strings (ss : List String) : Json := array (ss.map string)

/-- The field of a record with the given place and name; of several the last counts. -/
def slot? (place : Nat) (name : String) : Json → Option Json
  | object fields => (fields.reverse.find? (·.1 == name)).map (·.2)
  | array items => items[place]?
  | _ => none

def isRecord (n : Nat) : Json → Bool
  | object _ => true
  | array items => items.length == n
  | _ => false

def isPartialRecord (n : Nat) : Json → Bool
  | object _ => true
  | array items => items.length ≤ n
  | _ => false

def asString? : Json → Option String
  | string s => some s
  | _ => none

def asBool? : Json → Option Bool
  | bool b => some b
  | _ => none

def asCount? : Json → Option Nat
  | count n => if n < Nat.pow 2 64 then some n else none
  | _ => none

def asList? {α : Type} (f : Json → Option α) : Json → Option (List α)
  | array items => items.mapM f
  | _ => none

/-- A choice between names: the name, or an object with that one field and no value. -/
def asChoice? : Json → Option String
  | string s => some s
  | object [(s, null)] => some s
  | _ => none

def need {α : Type} (f : Json → Option α) (field : Option Json) : Option α := field.bind f

def may {α : Type} (f : Json → Option α) : Option Json → Option (Option α)
  | none => some none
  | some null => some none
  | some j => (f j).map some

def orDefault {α : Type} (a : α) (f : Json → Option α) : Option Json → Option α
  | none => some a
  | some j => f j

end Json
end ClassShape
