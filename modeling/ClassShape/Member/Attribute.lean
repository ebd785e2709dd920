import ClassShape.Token

/-! Attributes: `[modifier] Type name ;`. A field with an initialiser is none, and another word
between modifier and type hides the modifier. Modifiers and the words that can stand in type
position are those of methods too. -/
namespace ClassShape

inductive Modifier where
  | pub
  | priv
  | prot
  /-- No modifier is written. -/
  | default
deriving DecidableEq

namespace Modifier

def name : Modifier → String
  | pub => "public"
  | priv => "private"
  | prot => "protected"
  | default => "default"

def ofWord? (word : String) : Option Modifier :=
  if word = "public" then some pub
  else if word = "private" then some priv
  else if word = "protected" then some prot
  else none

def ofName? (name : String) : Option Modifier :=
  if name = "default" then some default else ofWord? name

end Modifier

def Lexeme.modifier? : Lexeme → Option Modifier
  | word text => Modifier.ofWord? text
  | mark _ => none

/-- Words that start a statement, and so never name the type of a member. -/
def statementKeywords : List String :=
  ["return", "else", "new", "throw", "case", "break", "continue", "assert", "yield"]

def isMemberType (word : String) : Bool :=
  (Modifier.ofWord? word).isNone && !statementKeywords.contains word

structure Attribute where
  modifier : Modifier
  type : String
  name : String
deriving DecidableEq

namespace Attribute

def unmodified? : List Lexeme → Option (String × String)
  | .word type :: .word name :: .mark ';' :: _ =>
    if isMemberType type && isIdentifier name then some (type, name) else none
  | _ => none

def match? : List Lexeme → Option (Attribute × Nat)
  | [] => none
  | first :: rest =>
    match first.modifier? with
    | some m => (unmodified? rest).map fun (type, name) => (⟨m, type, name⟩, 4)
    | none => (unmodified? (first :: rest)).map fun (type, name) => (⟨.default, type, name⟩, 3)

def scan (body : List Char) : List Attribute :=
  sweep match? ((Token.scan body).map Token.lexeme)

end Attribute

def attributes (body : String) : List Attribute := Attribute.scan body.toList

end ClassShape
