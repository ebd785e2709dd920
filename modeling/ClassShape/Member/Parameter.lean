import ClassShape.Text.Basic

/-! Parameter lists: fragments between top-level commas, each `[final] Type name`. -/
namespace ClassShape

structure Parameter where
  type : String
  name : String
deriving DecidableEq

namespace Parameter

def depthStep (c : Char) : Int :=
  if c = '<' then 1 else if c = '>' then -1 else 0

/-- Cuts at each comma that has no more `<` than `>` before it, counting from `depth`: the first
fragment and the others. -/
def cutFrom (depth : Int) : List Char → List Char × List (List Char)
  | [] => ([], [])
  | c :: cs =>
    let (head, tail) := cutFrom (depth + depthStep c) cs
    if c = ',' ∧ depth ≤ 0 then ([], head :: tail) else (c :: head, tail)

def fragments (list : List Char) : List (List Char) :=
  let (head, tail) := cutFrom 0 list
  head :: tail

inductive Reading where
  | empty
  | malformed
  | parameter (p : Parameter)
deriving DecidableEq

def dropFinal : List String → List String
  | "final" :: ws => ws
  | ws => ws

def ofWords (ws : List String) : Reading :=
  match ws.getLast? with
  | none => .empty
  | some name =>
    if ws.dropLast.isEmpty then .malformed
    else .parameter ⟨" ".intercalate ws.dropLast, name⟩

def read (fragment : List Char) : Reading :=
  ofWords (dropFinal ((Text.words fragment).map String.ofList))

def Reading.parameter? : Reading → Option Parameter
  | parameter p => some p
  | _ => none

def scan (list : List Char) : List Parameter :=
  (fragments list).filterMap fun f => (read f).parameter?

def malformed (list : List Char) : List (List Char) :=
  ((fragments list).filter fun f => read f = .malformed).map Text.trim

end Parameter

def parameters (list : String) : List Parameter := Parameter.scan list.toList

end ClassShape
