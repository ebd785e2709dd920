import ClassShape.Member.Attribute
import ClassShape.Member.Parameter
import ClassShape.Token

/-! Methods: `[modifier] Type name ( parameters ) {`. The list of parameters ends at the first
closing parenthesis; the brace is looked at and left for the next match. -/
namespace ClassShape

structure Method where
  modifier : Modifier
  returnType : String
  name : String
  parameters : List Parameter
deriving DecidableEq

namespace Method

structure Occurrence where
  modifier : Modifier
  returnType : String
  name : String
  parameterText : List Char
deriving DecidableEq

/-- The offset of the first closing parenthesis, if a brace follows it, and the number of tokens
up to and with it. -/
def closer? : List Token → Option (Nat × Nat)
  | [] => none
  | ⟨.mark ')', stop⟩ :: rest =>
    match rest with
    | ⟨.mark '{', _⟩ :: _ => some (stop, 1)
    | _ => none
  | _ :: rest => (closer? rest).map fun (stop, n) => (stop, n + 1)

def unmodified? (body : List Char) (modifier : Modifier) : List Token → Option (Occurrence × Nat)
  | ⟨.word type, _⟩ :: ⟨.word name, _⟩ :: ⟨.mark '(', paren⟩ :: rest =>
    if isMemberType type && isIdentifier name then
      (closer? rest).map fun (stop, n) =>
        (⟨modifier, type, name, Text.slice (paren + 1) stop body⟩, n + 3)
    else none
  | _ => none

def match? (body : List Char) : List Token → Option (Occurrence × Nat)
  | [] => none
  | first :: rest =>
    match first.lexeme.modifier? with
    | some m => (unmodified? body m rest).map fun (o, n) => (o, n + 1)
    | none => unmodified? body .default (first :: rest)

def occurrences (body : List Char) : List Occurrence := sweep (match? body) (Token.scan body)

def Occurrence.method (o : Occurrence) : Method :=
  ⟨o.modifier, o.returnType, o.name, Parameter.scan o.parameterText⟩

def scan (body : List Char) : List Method := (occurrences body).map Occurrence.method

end Method

def methods (body : String) : List Method := Method.scan body.toList

end ClassShape
