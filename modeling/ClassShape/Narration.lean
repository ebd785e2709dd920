import ClassShape.Log
import ClassShape.Report.Comparison
import ClassShape.SourceUnit
import ClassShape.Text.Quoted

/-! What is logged while source units are read, pooled and compared. The records follow from the
same values as the results, so the results do not depend on them. -/
namespace ClassShape

def Declaration.record : Declaration → LogRecord
  | complete b => ⟨.trace, s!"Class {b.name} body spans {b.start}..{b.stop}"⟩
  | unclosed name => ⟨.debug, s!"Class {name} never closes its body"⟩

def Attribute.record (a : Attribute) : LogRecord :=
  let modifier := a.modifier.name
  ⟨.trace, s!"Attribute {modifier} {a.type} {a.name}"⟩

def Method.Occurrence.records (o : Method.Occurrence) : List LogRecord :=
  let modifier := o.modifier.name
  let count := (Parameter.scan o.parameterText).length
  (Parameter.malformed o.parameterText).map (fun f =>
      let quoted := Text.quoted f
      ⟨.trace, s!"Skipping malformed parameter {quoted}"⟩) ++
    [⟨.trace, s!"Method {modifier} {o.returnType} {o.name} with {count} parameters"⟩]

def ClassBody.records (b : ClassBody) : List LogRecord :=
  let fields := attributes b.text
  let occurrences := Method.occurrences b.text.toList
  let count := fields.length
  let total := occurrences.length
  fields.map Attribute.record ++ occurrences.flatMap Method.Occurrence.records ++
    [⟨.trace, s!"Class {b.name} has {count} attributes and {total} methods"⟩]

/-- All bodies of a unit are found before any member is read. -/
def parseRecords (source : String) : List LogRecord :=
  let ds := declarations (Comment.strip source)
  ds.map Declaration.record ++ ds.flatMap fun
    | .complete body => body.records
    | .unclosed _ => []

namespace Pool

def recordsFrom (pooled : List ClassRecord) : List ClassRecord → List LogRecord
  | [] => []
  | r :: rs =>
    let later := recordsFrom (insert r pooled) rs
    if contains pooled r.name then
      ⟨.warn, s!"Class {r.name} declared more than once; keeping the later declaration"⟩ :: later
    else later

def records (cs : List ClassRecord) : List LogRecord := recordsFrom [] cs

end Pool

def compareRecords (labels : Labels) (reference candidate : List ClassRecord) : List LogRecord :=
  let report := compareReport labels reference candidate
  let overall := report.overall.name
  let p := report.referenceCount
  let q := report.candidateCount
  let r := labels.reference
  let c := labels.candidate
  let absent := (distinctNames reference).filter fun name => (lastOf? candidate name).isNone
  absent.map (fun name => ⟨.debug, s!"Class {name} not found in {c}"⟩) ++
    [⟨.info, s!"Compared {p} {r} classes against {q} {c} classes: {overall}"⟩]

end ClassShape
