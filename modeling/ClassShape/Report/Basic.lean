/-! Reports: for each class of the reference a node with an entry per signature, the notes, and
the verdict on the whole. As a text, a report is an indented tree with one line per item. -/
namespace ClassShape

structure Labels where
  reference : String := "reference"
  candidate : String := "candidate"
deriving DecidableEq

inductive Severity where
  /-- The candidate has no such class. -/
  | added
  /-- The candidate's class has no such member. -/
  | removed
  /-- The candidate has more of them. -/
  | countHigh
  /-- The candidate has fewer of them. -/
  | countLow
  | ok
deriving DecidableEq

inductive Verdict where
  | agree
  | differ
  | mixed
deriving DecidableEq

namespace Severity

def label : Severity → String
  | added => "added"
  | removed => "removed"
  | countHigh => "count-high"
  | countLow => "count-low"
  | ok => "ok"

def name : Severity → String
  | added => "added"
  | removed => "removed"
  | countHigh => "countMismatchHigh"
  | countLow => "countMismatchLow"
  | ok => "ok"

def all : List Severity := [added, removed, countHigh, countLow, ok]

def ofName? (s : String) : Option Severity := all.find? fun v => v.name = s

end Severity

namespace Verdict

def name : Verdict → String
  | agree => "match"
  | differ => "mismatch"
  | mixed => "partial"

def all : List Verdict := [agree, differ, mixed]

def ofName? (s : String) : Option Verdict := all.find? fun v => v.name = s

end Verdict

structure Entry where
  signature : String
  message : String
  severity : Severity
  /-- How many the reference has. -/
  count : Option Nat
  /-- How many the candidate has. -/
  candidateCount : Option Nat
deriving DecidableEq

structure InheritanceNote where
  message : String
  severity : Severity
deriving DecidableEq

structure Node where
  className : String
  verdict : Verdict
  parent : Option String
  note : Option InheritanceNote
  attributes : List Entry
  methods : List Entry
  children : Option (List Node)

def Node.entries (n : Node) : List Entry := n.attributes ++ n.methods

def Node.agrees (n : Node) : Bool := n.verdict = .agree

structure Report where
  referenceLabel : String
  candidateLabel : String
  nodes : List Node
  referenceCount : Nat
  candidateCount : Nat
  countNote : Option Entry

namespace Report

def overall (r : Report) : Verdict :=
  let agreed := r.nodes.countP Node.agrees
  if agreed = r.nodes.length ∧ r.countNote.isNone then .agree
  else if agreed = 0 then .differ
  else .mixed

def isMatch (r : Report) : Bool := r.overall = .agree

def severities (r : Report) : List Severity :=
  r.nodes.flatMap fun n =>
    n.entries.map Entry.severity ++ n.note.toList.map InheritanceNote.severity

def severityCount (r : Report) (s : Severity) : Nat := r.severities.count s

def entryLines (heading : String) (es : List Entry) : List String :=
  if es.isEmpty then []
  else s!"  {heading}:" :: es.map fun e =>
    let label := e.severity.label
    s!"    [{label}] {e.message}"

def nodeLines (n : Node) : List String :=
  let verdict := n.verdict.name
  let title := match n.parent with
    | some parent => s!"[{verdict}] {n.className} extends {parent}"
    | none => s!"[{verdict}] {n.className}"
  let note := n.note.toList.map fun i => s!"  ! {i.message}"
  title :: note ++ entryLines "attributes" n.attributes ++ entryLines "methods" n.methods

def lines (r : Report) : List String :=
  let total := r.nodes.length
  let differing := r.nodes.countP fun n => !n.agrees
  let overall := r.overall.name
  let title := s!"{r.referenceLabel} vs {r.candidateLabel}: " ++
    s!"{total} classes compared, {differing} differ ({overall})"
  title :: r.nodes.flatMap nodeLines ++ r.countNote.toList.map fun e => s!"note: {e.message}"

def renderText (r : Report) : String := String.join (r.lines.map (· ++ "\n"))

end Report
end ClassShape
