import ClassShape.Proofs.Json.Reading
import ClassShape.Report.Json

/-! Reports survive their JSON form. Each field is found under its name and read as what was
written, a field that is left out as absent; nodes go through their children to any depth. The only
condition is that counts fit in 64 bits. -/
namespace ClassShape
open Json

def Entry.Bounded (e : Entry) : Prop :=
  (∀ n ∈ e.count, n < Nat.pow 2 64) ∧ ∀ n ∈ e.candidateCount, n < Nat.pow 2 64

inductive Node.Bounded : Node → Prop where
  | mk {n : Node} (entries : ∀ e ∈ n.entries, e.Bounded)
    (children : ∀ ns ∈ n.children, ∀ m ∈ ns, Bounded m) : Bounded n

structure Report.Bounded (r : Report) : Prop where
  nodes : ∀ n ∈ r.nodes, n.Bounded
  referenceCount : r.referenceCount < Nat.pow 2 64
  candidateCount : r.candidateCount < Nat.pow 2 64
  countNote : ∀ e ∈ r.countNote, e.Bounded

namespace Json
variable {α : Type} {f : Json → Option α} {g : α → Json}

theorem guard_isRecord {j : Json} {n : Nat} (h : j.isRecord n = true) :
    (guard (j.isRecord n = true) : Option Unit) = some () := if_pos h

theorem asCount?_count {n : Nat} (h : n < Nat.pow 2 64) : asCount? (count n) = some n :=
  if_pos h

theorem asList?_map {xs : List α} (h : ∀ x ∈ xs, f (g x) = some x) :
    asList? f (array (xs.map g)) = some xs := by
  rw [asList?]
  induction xs with
  | nil => rfl
  | cons x xs ih =>
    obtain ⟨hx, hxs⟩ := List.forall_mem_cons.1 h
    simp [hx, ih hxs]

/-- An optional field is read as what it was, when what is there is never written as null. -/
theorem may_ofOption {o : Option α} (hnull : ∀ a ∈ o, g a ≠ null)
    (h : ∀ a ∈ o, f (g a) = some a) : may f (some (ofOption g o)) = some o := by
  cases o with
  | none => rfl
  | some a =>
    have hread : may f (some (g a)) = (f (g a)).map some := by
      cases hg : g a with
      | null => exact absurd hg (hnull a rfl)
      | _ => rfl
    rw [ofOption, hread, h a rfl, Option.map_some]

theorem may_count {o : Option Nat} (h : ∀ n ∈ o, n < Nat.pow 2 64) :
    may asCount? (some (ofOption count o)) = some o :=
  may_ofOption (fun n _ => by simp) fun n hn => asCount?_count (h n hn)

theorem may_string (o : Option String) : may asString? (some (ofOption string o)) = some o :=
  may_ofOption (fun s _ => by simp) fun _ _ => rfl

theorem Legible.ofOption {o : Option α} (h : ∀ a ∈ o, Legible (g a)) :
    Legible (ofOption g o) := by
  cases o with
  | none => exact .null
  | some a => exact h a rfl

theorem Legible.map {xs : List α} (h : ∀ x ∈ xs, Legible (g x)) : Legible (.array (xs.map g)) :=
  .array (List.forall_mem_map.2 h)

end Json

theorem Severity.ofJson?_name (s : Severity) : ofJson? (.string s.name) = some s := by
  cases s <;> rfl

theorem Verdict.ofJson?_name (v : Verdict) : ofJson? (.string v.name) = some v := by
  cases v <;> rfl

theorem Entry.Bounded.ofJson?_toJson {e : Entry} (h : e.Bounded) : ofJson? e.toJson = some e := by
  have hcount := may_count h.1
  have hcandidate := may_count h.2
  rw [ofJson?, guard_isRecord rfl]
  simp [toJson, slot?, need, asString?, Severity.ofJson?_name, hcount, hcandidate]

theorem Entry.legible_toJson (e : Entry) : Legible e.toJson := by
  refine .object ?_
  simp [Legible.string, Legible.ofOption, Legible.count]

theorem InheritanceNote.ofJson?_toJson (n : InheritanceNote) : ofJson? n.toJson = some n := by
  rw [ofJson?, guard_isRecord rfl]
  simp [toJson, slot?, need, asString?, Severity.ofJson?_name]

theorem InheritanceNote.legible_toJson (n : InheritanceNote) : Legible n.toJson := by
  refine .object ?_
  simp [Legible.string]

namespace Node

theorem listToJson_eq (ns : List Node) : listToJson ns = ns.map toJson := by
  induction ns with
  | nil => rw [listToJson, List.map_nil]
  | cons n ns ih => rw [listToJson, ih, List.map_cons]

theorem listOfJson?_eq (js : List Json) : listOfJson? js = js.mapM ofJson? := by
  induction js with
  | nil => rw [listOfJson?]; rfl
  | cons j js ih => rw [listOfJson?, ih, List.mapM_cons]

/-- Children are an optional list, read like the other fields. -/
theorem ofJson?_eq (j : Json) :
    ofJson? j = do
      guard (j.isRecord 7)
      let className ← need asString? (j.slot? 0 "className")
      let verdict ← need Verdict.ofJson? (j.slot? 1 "colorClass")
      let parent ← may asString? (j.slot? 2 "extendsName")
      let note ← may InheritanceNote.ofJson? (j.slot? 3 "inheritanceNote")
      let attributes ← need (asList? Entry.ofJson?) (j.slot? 4 "attributeDiffs")
      let methods ← need (asList? Entry.ofJson?) (j.slot? 5 "methodDiffs")
      let children ← may (asList? ofJson?) (j.slot? 6 "children")
      return ⟨className, verdict, parent, note, attributes, methods, children⟩ := by
  rw [ofJson?]
  cases j.isRecord 7 with
  | false => rfl
  | true =>
    refine bind_congr fun className => bind_congr fun verdict => bind_congr fun parent =>
      bind_congr fun note => bind_congr fun attributes => bind_congr fun methods => ?_
    split <;> simp_all [may, asList?, listOfJson?_eq]

/-- What is written for the children, nothing or a list, is read as them. -/
theorem may_slot?_children {fields : List (String × Json)}
    (hfields : ∀ f ∈ fields, f.1 ≠ "children") {children : Option (List Node)}
    (h : ∀ ns ∈ children, ∀ n ∈ ns, ofJson? n.toJson = some n) :
    may (asList? ofJson?) (slot? 6 "children" (.object (fields ++ childrenToJson children))) =
      some children := by
  cases children with
  | none =>
    have hfind : fields.reverse.find? (·.1 == "children") = none := by
      simpa using hfields
    simp [childrenToJson, slot?, hfind, may]
  | some ns =>
    have hns := asList?_map (h ns rfl)
    simp [childrenToJson, slot?, may, listToJson_eq, hns]

theorem Bounded.ofJson?_toJson {n : Node} (h : n.Bounded) : ofJson? n.toJson = some n := by
  induction h with
  | @mk n entries _ ih =>
    obtain ⟨className, verdict, parent, note, attributes, methods, children⟩ := n
    have hnote : may InheritanceNote.ofJson? (some (ofOption InheritanceNote.toJson note)) =
        some note :=
      may_ofOption (fun _ _ => by simp [InheritanceNote.toJson])
        fun n _ => InheritanceNote.ofJson?_toJson n
    have hattributes : asList? Entry.ofJson? (array (attributes.map Entry.toJson)) =
        some attributes :=
      asList?_map fun e he => (entries e (List.mem_append_left _ he)).ofJson?_toJson
    have hmethods : asList? Entry.ofJson? (array (methods.map Entry.toJson)) = some methods :=
      asList?_map fun e he => (entries e (List.mem_append_right _ he)).ofJson?_toJson
    rw [ofJson?_eq, toJson, may_slot?_children (by simp) ih, guard_isRecord rfl]
    cases children <;>
      simp [childrenToJson, slot?, need, asString?, Verdict.ofJson?_name, may_string, hnote,
        hattributes, hmethods]

theorem Bounded.legible_toJson {n : Node} (h : n.Bounded) : Legible n.toJson := by
  induction h with
  | @mk n _ _ ih =>
    obtain ⟨className, verdict, parent, note, attributes, methods, children⟩ := n
    have hchildren : ∀ f ∈ childrenToJson children, Legible f.2 := by
      cases children with
      | none => simp [childrenToJson]
      | some ns =>
        simp only [childrenToJson, listToJson_eq, List.forall_mem_singleton]
        exact .map (ih ns rfl)
    rw [toJson]
    refine .object (List.forall_mem_append.2 ⟨?_, hchildren⟩)
    simp [Legible.string, Legible.ofOption, Legible.map, Entry.legible_toJson,
      InheritanceNote.legible_toJson]

end Node

namespace Report

theorem Bounded.ofJson?_toJson {r : Report} (h : r.Bounded) : ofJson? r.toJson = some r := by
  have hnodes : Node.listOfJson? (Node.listToJson r.nodes) = some r.nodes := by
    rw [Node.listOfJson?_eq, Node.listToJson_eq]
    exact asList?_map fun n hn => (h.nodes n hn).ofJson?_toJson
  have hnote : may Entry.ofJson? (some (ofOption Entry.toJson r.countNote)) = some r.countNote :=
    may_ofOption (fun _ _ => by simp [Entry.toJson]) fun e he => (h.countNote e he).ofJson?_toJson
  rw [ofJson?, guard_isRecord rfl]
  simp [toJson, slot?, need, asString?, hnodes, hnote, asCount?_count h.referenceCount,
    asCount?_count h.candidateCount]

theorem Bounded.legible_toJson {r : Report} (h : r.Bounded) : Legible r.toJson := by
  have hnodes := Legible.map fun n hn => (h.nodes n hn).legible_toJson
  refine .object ?_
  simp [Legible.string, Legible.count, Legible.ofOption, Entry.legible_toJson,
    Node.listToJson_eq, hnodes]

/-- A report whose counts fit in 64 bits is read back from its JSON text as it was. -/
theorem renderJson_lossless (r : Report) (h : r.Bounded) :
    (parse? r.renderJson).bind ofJson? = some r := by
  rw [renderJson, h.legible_toJson.parse?_pretty, Option.bind_some, h.ofJson?_toJson]

/-- Every kind of escape, an empty list of children beside none at all, and the largest count. -/
def oddReport : Report where
  referenceLabel := "\"\\/\t\n\x01\x1f"
  candidateLabel := "é \u2028 😀"
  nodes := [⟨"A", .mixed, some "", some ⟨"", .added⟩,
    [⟨"", "", .ok, some (Nat.pow 2 64 - 1), none⟩], [⟨"", "", .countLow, none, some 0⟩],
    some [⟨"B", .agree, none, none, [], [], some []⟩, ⟨"C", .differ, none, none, [], [], none⟩]⟩]
  referenceCount := Nat.pow 2 64 - 1
  candidateCount := 0
  countNote := none

theorem renderJson_oddReport :
    oddReport.Bounded ∧ (parse? oddReport.renderJson).bind ofJson? = some oddReport := by
  have hbounded : oddReport.Bounded := by
    refine ⟨?_, by decide, by decide, fun e he => by cases he⟩
    simp only [oddReport, List.forall_mem_singleton]
    refine .mk ?_ ?_
    · simp [Node.entries, Entry.Bounded]
    · rintro ns ⟨⟩
      simp only [List.forall_mem_cons]
      refine ⟨.mk ?_ ?_, .mk ?_ ?_, ?_⟩ <;> simp [Node.entries]
  exact ⟨hbounded, renderJson_lossless oddReport hbounded⟩

end Report
end ClassShape
