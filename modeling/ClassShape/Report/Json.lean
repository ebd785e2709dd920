import ClassShape.Json.Basic
import ClassShape.Json.Printer
import ClassShape.Report.Basic

/-! Reports as JSON, written and read. -/
namespace ClassShape
open Json

def Severity.ofJson? (j : Json) : Option Severity := j.asChoice?.bind Severity.ofName?

def Verdict.ofJson? (j : Json) : Option Verdict := j.asChoice?.bind Verdict.ofName?

def Labels.ofJson? (j : Json) : Option Labels := do
  guard (j.isPartialRecord 2)
  let reference ← orDefault "reference" asString? (j.slot? 0 "reference")
  let candidate ← orDefault "candidate" asString? (j.slot? 1 "candidate")
  return ⟨reference, candidate⟩

def Labels.toJson (l : Labels) : Json :=
  .object [("reference", .string l.reference), ("candidate", .string l.candidate)]

def Entry.toJson (e : Entry) : Json :=
  .object [("signature", .string e.signature), ("message", .string e.message),
    ("severity", .string e.severity.name), ("count", .ofOption .count e.count),
    ("candidateCount", .ofOption .count e.candidateCount)]

def Entry.ofJson? (j : Json) : Option Entry := do
  guard (j.isRecord 5)
  let signature ← need asString? (j.slot? 0 "signature")
  let message ← need asString? (j.slot? 1 "message")
  let severity ← need Severity.ofJson? (j.slot? 2 "severity")
  let count ← may asCount? (j.slot? 3 "count")
  let candidateCount ← may asCount? (j.slot? 4 "candidateCount")
  return ⟨signature, message, severity, count, candidateCount⟩

def InheritanceNote.toJson (n : InheritanceNote) : Json :=
  .object [("message", .string n.message), ("severity", .string n.severity.name)]

def InheritanceNote.ofJson? (j : Json) : Option InheritanceNote := do
  guard (j.isRecord 2)
  let message ← need asString? (j.slot? 0 "message")
  let severity ← need Severity.ofJson? (j.slot? 1 "severity")
  return ⟨message, severity⟩

mutual

def Node.toJson : Node → Json
  | ⟨className, verdict, parent, note, attributes, methods, children⟩ =>
    .object ([("className", .string className), ("colorClass", .string verdict.name),
      ("extendsName", .ofOption .string parent),
      ("inheritanceNote", .ofOption InheritanceNote.toJson note),
      ("attributeDiffs", .array (attributes.map Entry.toJson)),
      ("methodDiffs", .array (methods.map Entry.toJson))] ++ Node.childrenToJson children)

/-- Children that are absent have no field at all. -/
def Node.childrenToJson : Option (List Node) → List (String × Json)
  | none => []
  | some ns => [("children", .array (Node.listToJson ns))]

def Node.listToJson : List Node → List Json
  | [] => []
  | n :: ns => n.toJson :: Node.listToJson ns

end

theorem Json.sizeOf_slot? {j v : Json} {place : Nat} {name : String}
    (h : j.slot? place name = some v) : sizeOf v < sizeOf j := by
  cases j with
  | object fields =>
    obtain ⟨⟨k, w⟩, hf, rfl⟩ := Option.map_eq_some_iff.1 h
    have hm : (k, w) ∈ fields := List.mem_reverse.1 (List.mem_of_find?_eq_some hf)
    have := List.sizeOf_lt_of_mem hm
    simp at this ⊢
    omega
  | array items =>
    have := List.sizeOf_lt_of_mem (List.mem_of_getElem? h)
    simp at this ⊢
    omega
  | _ => simp [Json.slot?] at h

mutual

def Node.ofJson? (j : Json) : Option Node := do
  if !j.isRecord 7 then none
  let className ← need asString? (j.slot? 0 "className")
  let verdict ← need Verdict.ofJson? (j.slot? 1 "colorClass")
  let parent ← may asString? (j.slot? 2 "extendsName")
  let note ← may InheritanceNote.ofJson? (j.slot? 3 "inheritanceNote")
  let attributes ← need (asList? Entry.ofJson?) (j.slot? 4 "attributeDiffs")
  let methods ← need (asList? Entry.ofJson?) (j.slot? 5 "methodDiffs")
  let children ← match _h : j.slot? 6 "children" with
    | none => some none
    | some .null => some none
    | some (.array items) => (Node.listOfJson? items).map some
    | some _ => none
  return ⟨className, verdict, parent, note, attributes, methods, children⟩
termination_by sizeOf j
decreasing_by
  have := Json.sizeOf_slot? _h
  simp only [Json.array.sizeOf_spec] at this
  omega

def Node.listOfJson? : List Json → Option (List Node)
  | [] => some []
  | j :: js => do
    let n ← Node.ofJson? j
    let ns ← Node.listOfJson? js
    return n :: ns
termination_by js => sizeOf js

end

namespace Report

def toJson (r : Report) : Json :=
  .object [("referenceLabel", .string r.referenceLabel),
    ("candidateLabel", .string r.candidateLabel),
    ("nodes", .array (Node.listToJson r.nodes)), ("referenceClassCount", .count r.referenceCount),
    ("candidateClassCount", .count r.candidateCount),
    ("classCountNote", .ofOption Entry.toJson r.countNote)]

def ofJson? (j : Json) : Option Report := do
  guard (j.isRecord 6)
  let referenceLabel ← need asString? (j.slot? 0 "referenceLabel")
  let candidateLabel ← need asString? (j.slot? 1 "candidateLabel")
  let nodes ← match j.slot? 2 "nodes" with
    | some (.array items) => Node.listOfJson? items
    | _ => none
  let referenceCount ← need asCount? (j.slot? 3 "referenceClassCount")
  let candidateCount ← need asCount? (j.slot? 4 "candidateClassCount")
  let countNote ← may Entry.ofJson? (j.slot? 5 "classCountNote")
  return ⟨referenceLabel, candidateLabel, nodes, referenceCount, candidateCount, countNote⟩

def renderJson (r : Report) : String := r.toJson.pretty

end Report
end ClassShape
