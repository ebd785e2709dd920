import ClassShape.ClassBody
import ClassShape.Json.Basic
import ClassShape.Member.Attribute
import ClassShape.Member.Method

/-! The record of a class: its name, its parent and its members in source order. Records are pooled
by name: a name keeps the place of its first record and the content of its last one. They have a
JSON form. -/
namespace ClassShape

structure ClassRecord where
  name : String
  parent : Option String
  attributes : List Attribute
  methods : List Method
deriving DecidableEq

def ClassBody.classRecord (b : ClassBody) : ClassRecord :=
  ⟨b.name, b.parent, ClassShape.attributes b.text, ClassShape.methods b.text⟩

namespace Pool

def insert (r : ClassRecord) : List ClassRecord → List ClassRecord
  | [] => [r]
  | c :: cs => if c.name = r.name then r :: cs else c :: insert r cs

def contains (cs : List ClassRecord) (name : String) : Bool := cs.any (·.name == name)

def addAll (pooled cs : List ClassRecord) : List ClassRecord :=
  cs.foldl (fun p r => insert r p) pooled

end Pool

def pool (cs : List ClassRecord) : List ClassRecord := Pool.addAll [] cs

section Json
open Json

def Modifier.ofJson? (j : Json) : Option Modifier := j.asChoice?.bind Modifier.ofName?

def Attribute.ofJson? (j : Json) : Option Attribute := do
  guard (j.isRecord 3)
  let modifier ← need Modifier.ofJson? (j.slot? 0 "modifier")
  let type ← need asString? (j.slot? 1 "type")
  let name ← need asString? (j.slot? 2 "name")
  return ⟨modifier, type, name⟩

def Attribute.toJson (a : Attribute) : Json :=
  .object [("modifier", .string a.modifier.name), ("type", .string a.type),
    ("name", .string a.name)]

def Parameter.ofJson? (j : Json) : Option Parameter := do
  guard (j.isRecord 2)
  let type ← need asString? (j.slot? 0 "type")
  let name ← need asString? (j.slot? 1 "name")
  return ⟨type, name⟩

def Parameter.toJson (p : Parameter) : Json :=
  .object [("type", .string p.type), ("name", .string p.name)]

def Method.ofJson? (j : Json) : Option Method := do
  guard (j.isRecord 4)
  let modifier ← need Modifier.ofJson? (j.slot? 0 "modifier")
  let returnType ← need asString? (j.slot? 1 "return_type")
  let name ← need asString? (j.slot? 2 "method_name")
  let parameters ← need (asList? Parameter.ofJson?) (j.slot? 3 "parameters")
  return ⟨modifier, returnType, name, parameters⟩

def Method.toJson (m : Method) : Json :=
  .object [("modifier", .string m.modifier.name), ("return_type", .string m.returnType),
    ("method_name", .string m.name), ("parameters", .array (m.parameters.map Parameter.toJson))]

def ClassRecord.ofJson? (j : Json) : Option ClassRecord := do
  guard (j.isRecord 4)
  let name ← need asString? (j.slot? 0 "name")
  let parent ← may asString? (j.slot? 1 "extends")
  let attributes ← need (asList? Attribute.ofJson?) (j.slot? 2 "attributes")
  let methods ← need (asList? Method.ofJson?) (j.slot? 3 "methods")
  return ⟨name, parent, attributes, methods⟩

def ClassRecord.toJson (c : ClassRecord) : Json :=
  .object [("name", .string c.name), ("extends", .ofOption .string c.parent),
    ("attributes", .array (c.attributes.map Attribute.toJson)),
    ("methods", .array (c.methods.map Method.toJson))]

end Json
end ClassShape
