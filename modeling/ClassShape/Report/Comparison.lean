import ClassShape.Report.Basic
import ClassShape.Signature

/-! Comparing a candidate with a reference. Only the classes and signatures of the reference are
looked up; what the candidate has beyond them goes unreported. Of several records of a name the
last one counts. -/
namespace ClassShape

def distinctNames : List ClassRecord → List String
  | [] => []
  | c :: cs => c.name :: (distinctNames cs).filter (· ≠ c.name)

def lastOf? (cs : List ClassRecord) (name : String) : Option ClassRecord :=
  cs.reverse.find? (·.name == name)

namespace Comparison
variable {α σ : Type} [DecidableEq σ]

/-- The entry of a signature that the reference has `count` times and the candidate, in its class
of the same name, `found` times. -/
def entry (labels : Labels) (text : String) (count : Nat) (found : Option Nat) : Entry :=
  let r := labels.reference
  let c := labels.candidate
  match found with
  | none => ⟨text, s!"{text}: missing from {c}", .removed, none, none⟩
  | some n =>
    if n < count then
      ⟨text, s!"{text}: {r} has {count}, {c} has {n}", .countLow, some count, some n⟩
    else if n > count then
      ⟨text, s!"{text}: {r} has {count}, {c} has {n}", .countHigh, some count, some n⟩
    else ⟨text, s!"{text}: {count} in both", .ok, some count, none⟩

def missingEntry (labels : Labels) (className text : String) (count : Nat) : Entry :=
  let r := labels.reference
  let c := labels.candidate
  ⟨text, s!"{text}: {r} has {count}, {c} has no class '{className}'", .added, some count, none⟩

def memberEntries (labels : Labels) (text : σ → String) (reference candidate : List σ) :
    List Entry :=
  (Tally.ofList reference).entries.map fun (s, count) =>
    entry labels (text s) count ((Tally.ofList candidate).get? s)

def missingEntries (labels : Labels) (className : String) (text : σ → String)
    (reference : List σ) : List Entry :=
  (Tally.ofList reference).entries.map fun (s, count) =>
    missingEntry labels className (text s) count

def inheritanceNote (labels : Labels) (reference candidate : Option String) :
    Option InheritanceNote :=
  let r := labels.reference
  let c := labels.candidate
  match reference, candidate with
  | some a, none => some ⟨s!"{r} extends '{a}' but {c} didn't extend", .removed⟩
  | none, some b => some ⟨s!"{r} didn't extend but {c} extends '{b}'", .removed⟩
  | some a, some b =>
    if a = b then none else some ⟨s!"{r} extends '{a}' but {c} extends '{b}'", .removed⟩
  | none, none => none

def missingNode (labels : Labels) (target : ClassRecord) : Node where
  className := target.name
  verdict := .differ
  parent := target.parent
  note := none
  attributes := missingEntries labels target.name AttributeSignature.text
    (target.attributes.map Attribute.signature)
  methods := missingEntries labels target.name MethodSignature.text
    (target.methods.map Method.signature)
  children := none

def classNode (labels : Labels) (target counterpart : ClassRecord) : Node :=
  let note := inheritanceNote labels target.parent counterpart.parent
  let attributes := memberEntries labels AttributeSignature.text
    (target.attributes.map Attribute.signature) (counterpart.attributes.map Attribute.signature)
  let methods := memberEntries labels MethodSignature.text
    (target.methods.map Method.signature) (counterpart.methods.map Method.signature)
  let differs := note.isSome || (attributes ++ methods).any fun e => e.severity ≠ .ok
  ⟨target.name, if differs then .differ else .agree, target.parent, note, attributes, methods, none⟩

def countNote (labels : Labels) (reference candidate : Nat) : Option Entry :=
  let r := labels.reference
  let c := labels.candidate
  if reference = candidate then none
  else some ⟨"classes", s!"{r} has {reference} classes, {c} has {candidate}",
    if reference > candidate then .countLow else .countHigh, some reference, some candidate⟩

end Comparison

def compare (labels : Labels) (reference candidate : List ClassRecord) : List Node :=
  (distinctNames reference).filterMap fun name =>
    (lastOf? reference name).map fun target =>
      match lastOf? candidate name with
      | some counterpart => Comparison.classNode labels target counterpart
      | none => Comparison.missingNode labels target

def compareReport (labels : Labels) (reference candidate : List ClassRecord) : Report :=
  let p := (distinctNames reference).length
  let q := (distinctNames candidate).length
  ⟨labels.reference, labels.candidate, compare labels reference candidate, p, q,
    Comparison.countNote labels p q⟩

end ClassShape
