import ClassShape.Json.Symbol

/-! Reading JSON: a machine takes the symbols one by one and keeps the containers that are still
open on a stack, so nesting has no limit. -/
namespace ClassShape.Json

/-- A container that is still open, its content in reverse. -/
inductive Frame where
  | items (done : List Json)
  | fields (done : List (String × Json))
  /-- An object whose field of the given name waits for its value. -/
  | field (done : List (String × Json)) (name : String)

inductive Stage where
  | value
  | firstItem
  | firstName
  | name
  | colon (name : String)
  | next
  | finished (v : Json)

def deliver (v : Json) : List Frame → Option (Stage × List Frame)
  | [] => some (.finished v, [])
  | .items done :: stack => some (.next, .items (v :: done) :: stack)
  | .field done name :: stack => some (.next, .fields ((name, v) :: done) :: stack)
  | .fields _ :: _ => none

def begin (stack : List Frame) : Symbol → Option (Stage × List Frame)
  | .leftBracket => some (.firstItem, .items [] :: stack)
  | .leftBrace => some (.firstName, .fields [] :: stack)
  | .atom v => deliver v stack
  | _ => none

def step (stage : Stage) (stack : List Frame) (s : Symbol) : Option (Stage × List Frame) :=
  match stage, s, stack with
  | .value, s, stack => begin stack s
  | .firstItem, .rightBracket, .items _ :: stack => deliver (array []) stack
  | .firstItem, s, stack => begin stack s
  | .firstName, .rightBrace, .fields _ :: stack => deliver (object []) stack
  | .firstName, .atom (.string k), stack => some (.colon k, stack)
  | .name, .atom (.string k), stack => some (.colon k, stack)
  | .colon k, .colon, .fields done :: stack => some (.value, .field done k :: stack)
  | .next, .comma, .items done :: stack => some (.value, .items done :: stack)
  | .next, .comma, .fields done :: stack => some (.name, .fields done :: stack)
  | .next, .rightBracket, .items done :: stack => deliver (array done.reverse) stack
  | .next, .rightBrace, .fields done :: stack => deliver (object done.reverse) stack
  | _, _, _ => none

def run (stage : Stage) (stack : List Frame) : List Symbol → Option Json
  | [] => match stage with
    | .finished v => some v
    | _ => none
  | s :: ss => match step stage stack s with
    | some (stage, stack) => run stage stack ss
    | none => none

def parse? (text : String) : Option Json := (symbols? text.toList).bind (run .value [])

end ClassShape.Json
