import ClassShape.Proofs.CleanRecords
import ClassShape.Proofs.PoolLaws
import ClassShape.Proofs.Splitting
import ClassShape.Report.Basic

/-! The lines of a text report. Nothing is escaped when a report is written out, so it has one line
for each item only as long as no text in it breaks a line. The records of a source are clean, and
then the texts of their signatures and all messages about them stay on one line. -/
namespace ClassShape

namespace Text

def OneLine (s : String) : Prop := '\n' ∉ s.toList

@[simp] theorem oneLine_append (s t : String) : OneLine (s ++ t) ↔ OneLine s ∧ OneLine t := by
  simp [OneLine]

@[simp] theorem oneLine_toString (s : String) : OneLine (toString s) ↔ OneLine s := Iff.rfl

@[simp] theorem oneLine_repr (n : Nat) : OneLine n.repr := by
  intro h
  have hdigit : '\n'.isDigit = true :=
    Nat.isDigit_of_mem_toDigits (b := 10) (by decide) (by decide) (by simpa [Nat.repr] using h)
  revert hdigit
  decide

theorem oneLine_intercalate {sep : String} {ws : List String} (hsep : OneLine sep)
    (h : ∀ w ∈ ws, OneLine w) : OneLine (sep.intercalate ws) := by
  induction ws with
  | nil => simp [OneLine]
  | cons w ws ih =>
    cases ws with
    | nil => simpa using h w (by simp)
    | cons v ws =>
      rw [String.intercalate_cons_cons]
      have hrest := ih fun u hu => h u (List.mem_cons_of_mem w hu)
      simp [hsep, h w (by simp), hrest]

/-- Lines that are each ended by a newline are cut back out of the text. -/
theorem split_lines {lines : List String} (h : ∀ line ∈ lines, OneLine line) :
    split '\n' (String.join (lines.map (· ++ "\n"))).toList =
      lines.map String.toList ++ [[]] := by
  induction lines with
  | nil => rfl
  | cons line lines ih =>
    have htext : (String.join ((line :: lines).map (· ++ "\n"))).toList =
        line.toList ++ '\n' :: (String.join (lines.map (· ++ "\n"))).toList := by
      simp
    rw [htext, split_append (h line (by simp)), ih fun l hl => h l (List.mem_cons_of_mem line hl)]
    rfl

end Text

open Text (OneLine)

instance (s : String) : Decidable (OneLine s) := inferInstanceAs (Decidable ('\n' ∉ s.toList))

theorem IsName.oneLine {s : String} (h : IsName s) : OneLine s := h.notMem (by decide)

theorem IsWordType.oneLine {s : String} (h : IsWordType s) : OneLine s := h.notMem (by decide)

theorem IsListWord.oneLine {s : String} (h : IsListWord s) : OneLine s := by
  intro hmem
  have hblank := (h.chars '\n' hmem).1
  revert hblank
  decide

theorem Modifier.oneLine_name (m : Modifier) : OneLine m.name := by
  cases m <;> decide

theorem Attribute.Canonical.oneLine {a : Attribute} (h : a.Canonical) :
    OneLine a.signature.text := by
  simp only [AttributeSignature.text, Text.oneLine_append]
  exact ⟨⟨a.modifier.oneLine_name, by decide⟩, h.type.oneLine⟩

theorem Parameter.Clean.oneLine {p : Parameter} (h : p.Clean) : OneLine p.type := by
  obtain ⟨ws, -, htype, hws⟩ := h.type
  rw [htype]
  exact Text.oneLine_intercalate (by decide) fun w hw => (hws w hw).oneLine

theorem Method.Clean.oneLine {m : Method} (h : m.Clean) : OneLine m.signature.text := by
  have htypes : ∀ type ∈ m.parameters.map Parameter.type, OneLine type := by
    intro type htype
    obtain ⟨p, hp, rfl⟩ := List.mem_map.1 htype
    exact (h.parameters p hp).oneLine
  simp only [MethodSignature.text, Text.oneLine_append]
  exact ⟨⟨⟨⟨m.modifier.oneLine_name, by decide⟩, h.returnType.oneLine⟩, by decide⟩,
    Text.oneLine_intercalate (by decide) htypes⟩

structure Labels.OneLine (l : Labels) : Prop where
  reference : Text.OneLine l.reference
  candidate : Text.OneLine l.candidate

structure Node.OneLine (n : Node) : Prop where
  className : Text.OneLine n.className
  parent : ∀ p ∈ n.parent, Text.OneLine p
  note : ∀ i ∈ n.note, Text.OneLine i.message
  entries : ∀ e ∈ n.entries, Text.OneLine e.message

namespace Comparison
variable {σ : Type} [DecidableEq σ] {labels : Labels}

theorem oneLine_entry (hl : labels.OneLine) {text : String} (htext : OneLine text) (count : Nat)
    (found : Option Nat) : OneLine (entry labels text count found).message := by
  cases found with
  | none => simp +decide [entry, htext, hl.candidate]
  | some n =>
    simp only [entry]
    split
    · simp +decide [htext, hl.reference, hl.candidate]
    · split
      · simp +decide [htext, hl.reference, hl.candidate]
      · simp +decide [htext]

theorem oneLine_memberEntries (hl : labels.OneLine) {text : σ → String} {reference : List σ}
    (htext : ∀ s ∈ reference, OneLine (text s)) (candidate : List σ) :
    ∀ e ∈ memberEntries labels text reference candidate, OneLine e.message := by
  intro e he
  obtain ⟨⟨s, count⟩, hs, rfl⟩ := List.mem_map.1 he
  exact oneLine_entry hl (htext s (Tally.mem_entries_ofList.1 hs).1) count _

theorem oneLine_missingEntries (hl : labels.OneLine) {className : String}
    (hname : OneLine className) {text : σ → String} {reference : List σ}
    (htext : ∀ s ∈ reference, OneLine (text s)) :
    ∀ e ∈ missingEntries labels className text reference, OneLine e.message := by
  intro e he
  obtain ⟨⟨s, count⟩, hs, rfl⟩ := List.mem_map.1 he
  have hs := htext s (Tally.mem_entries_ofList.1 hs).1
  simp +decide [missingEntry, hname, hs, hl.reference, hl.candidate]

theorem oneLine_inheritanceNote (hl : labels.OneLine) {a b : Option String}
    (ha : ∀ p ∈ a, OneLine p) (hb : ∀ p ∈ b, OneLine p) :
    ∀ i ∈ inheritanceNote labels a b, OneLine i.message := by
  intro i hi
  unfold inheritanceNote at hi
  split at hi
  · cases hi
    simp +decide [ha _ rfl, hl.reference, hl.candidate]
  · cases hi
    simp +decide [hb _ rfl, hl.reference, hl.candidate]
  · split at hi
    · cases hi
    · cases hi
      simp +decide [ha _ rfl, hb _ rfl, hl.reference, hl.candidate]
  · cases hi

theorem oneLine_countNote (hl : labels.OneLine) (p q : Nat) :
    ∀ e ∈ countNote labels p q, OneLine e.message := by
  intro e he
  unfold countNote at he
  split at he
  · cases he
  · cases he
    simp +decide [hl.reference, hl.candidate]

end Comparison

namespace ClassRecord.Clean
variable {r : ClassRecord}

theorem oneLine_parent (h : r.Clean) : ∀ p ∈ r.parent, OneLine p :=
  fun p hp => (h.parent p hp).oneLine

theorem oneLine_attributes (h : r.Clean) : ∀ s ∈ r.attributeSignatures, OneLine s.text := by
  intro s hs
  obtain ⟨a, ha, rfl⟩ := List.mem_map.1 hs
  exact (h.attributes a ha).oneLine

theorem oneLine_methods (h : r.Clean) : ∀ s ∈ r.methodSignatures, OneLine s.text := by
  intro s hs
  obtain ⟨m, hm, rfl⟩ := List.mem_map.1 hs
  exact (h.methods m hm).oneLine

end ClassRecord.Clean

/-- The node of a clean class has nothing in it that breaks a line. -/
theorem Comparison.oneLine_node {labels : Labels} (hl : labels.OneLine)
    {candidate : List ClassRecord} (hcandidate : ∀ r ∈ candidate, r.Clean) {target : ClassRecord}
    (htarget : target.Clean) : (node labels candidate target).OneLine := by
  cases hlast : lastOf? candidate target.name with
  | none =>
    simp only [node, hlast]
    exact
      { className := htarget.name.oneLine
        parent := htarget.oneLine_parent
        note := fun i hi => by cases hi
        entries := List.forall_mem_append.2
          ⟨oneLine_missingEntries hl htarget.name.oneLine htarget.oneLine_attributes,
            oneLine_missingEntries hl htarget.name.oneLine htarget.oneLine_methods⟩ }
  | some found =>
    have hfound : found.Clean := hcandidate found (lastOf?_eq_some_iff.1 hlast).1.mem
    simp only [node, hlast]
    exact
      { className := htarget.name.oneLine
        parent := htarget.oneLine_parent
        note := oneLine_inheritanceNote hl htarget.oneLine_parent hfound.oneLine_parent
        entries := List.forall_mem_append.2
          ⟨oneLine_memberEntries hl htarget.oneLine_attributes _,
            oneLine_memberEntries hl htarget.oneLine_methods _⟩ }

namespace Report

inductive Item where
  | summary
  | node (n : Node)
  | inheritance (i : InheritanceNote)
  | heading (name : String)
  | entry (e : Entry)
  | count (e : Entry)

def sectionItems (name : String) (es : List Entry) : List Item :=
  if es.isEmpty then [] else .heading name :: es.map .entry

def nodeItems (n : Node) : List Item :=
  .node n :: n.note.toList.map .inheritance ++ sectionItems "attributes" n.attributes ++
    sectionItems "methods" n.methods

def items (r : Report) : List Item :=
  .summary :: r.nodes.flatMap nodeItems ++ r.countNote.toList.map .count

def Shows (r : Report) : Item → String → Prop
  | .summary, line => ∃ rest, line = r.referenceLabel ++ " vs " ++ r.candidateLabel ++ ": " ++ rest
  | .node n, line => line = "[" ++ n.verdict.name ++ "] " ++ n.className ++
      match n.parent with
      | some parent => " extends " ++ parent
      | none => ""
  | .inheritance i, line => line = "  ! " ++ i.message
  | .heading name, line => line = "  " ++ name ++ ":"
  | .entry e, line => line = "    [" ++ e.severity.label ++ "] " ++ e.message
  | .count e, line => line = "note: " ++ e.message

def sectionCount (es : List Entry) : Nat := if es = [] then 0 else 1 + es.length

def nodesCount : List Node → Nat
  | [] => 0
  | n :: ns => 1 + (if n.note.isSome then 1 else 0) + sectionCount n.attributes +
      sectionCount n.methods + nodesCount ns

theorem length_sectionItems (name : String) (es : List Entry) :
    (sectionItems name es).length = sectionCount es := by
  cases es with
  | nil => rfl
  | cons e es => simp [sectionItems, sectionCount]; omega

theorem length_toList {α : Type} (o : Option α) : o.toList.length = if o.isSome then 1 else 0 := by
  cases o <;> rfl

theorem length_flatMap_nodeItems (ns : List Node) :
    (ns.flatMap nodeItems).length = nodesCount ns := by
  induction ns with
  | nil => rfl
  | cons n ns ih =>
    simp only [List.flatMap_cons, List.length_append, ih, nodeItems, List.length_cons,
      List.length_map, length_sectionItems, length_toList, nodesCount]
    omega

theorem length_items (r : Report) :
    r.items.length = 1 + nodesCount r.nodes + if r.countNote.isSome then 1 else 0 := by
  simp only [items, List.length_append, List.length_cons, List.length_map,
    length_flatMap_nodeItems, length_toList]
  omega

theorem forall₂_shows {α : Type} {r : Report} {item : α → Item} {line : α → String}
    (h : ∀ a, r.Shows (item a) (line a)) (as : List α) :
    List.Forall₂ r.Shows (as.map item) (as.map line) := by
  rw [List.forall₂_map_left_iff, List.forall₂_map_right_iff, List.forall₂_same]
  exact fun a _ => h a

theorem shows_entryLines (r : Report) (name : String) (es : List Entry) :
    List.Forall₂ r.Shows (sectionItems name es) (entryLines name es) := by
  unfold sectionItems entryLines
  split
  · exact .nil
  · exact .cons rfl (forall₂_shows (fun _ => by rfl) es)

theorem shows_nodeLines (r : Report) (n : Node) :
    List.Forall₂ r.Shows (nodeItems n) (nodeLines n) := by
  have hnote : List.Forall₂ r.Shows (n.note.toList.map .inheritance)
      (n.note.toList.map fun i => s!"  ! {i.message}") := forall₂_shows (fun _ => by rfl) _
  refine List.rel_append (List.rel_append (.cons ?_ hnote) (shows_entryLines r _ _))
    (shows_entryLines r _ _)
  simp only [Shows]
  cases n.parent with
  | none => exact String.append_empty.symm
  | some parent => exact String.append_assoc

/-- Line by line the items of a report are shown. -/
theorem shows_lines (r : Report) : List.Forall₂ r.Shows r.items r.lines := by
  have hnodes : ∀ ns : List Node,
      List.Forall₂ r.Shows (ns.flatMap nodeItems) (ns.flatMap nodeLines) := by
    intro ns
    induction ns with
    | nil => exact .nil
    | cons n ns ih => exact List.rel_append (shows_nodeLines r n) ih
  have hcount : List.Forall₂ r.Shows (r.countNote.toList.map .count)
      (r.countNote.toList.map fun e => s!"note: {e.message}") := forall₂_shows (fun _ => by rfl) _
  exact List.rel_append (.cons ⟨_, rfl⟩ (hnodes r.nodes)) hcount

theorem oneLine_label (s : Severity) : OneLine s.label := by
  cases s <;> decide

theorem oneLine_verdict (v : Verdict) : OneLine v.name := by
  cases v <;> decide

theorem oneLine_entryLines {name : String} {es : List Entry} (hname : OneLine name)
    (h : ∀ e ∈ es, OneLine e.message) : ∀ line ∈ entryLines name es, OneLine line := by
  unfold entryLines
  split
  · simp
  · refine List.forall_mem_cons.2 ⟨by simp +decide [hname], List.forall_mem_map.2 fun e he => ?_⟩
    simp +decide [oneLine_label, h e he]

theorem oneLine_nodeLines {n : Node} (h : n.OneLine) : ∀ line ∈ nodeLines n, OneLine line := by
  have hnote : ∀ line ∈ n.note.toList.map fun i => s!"  ! {i.message}", OneLine line :=
    List.forall_mem_map.2 fun i hi => by simp +decide [h.note i (Option.mem_toList.1 hi)]
  obtain ⟨hattributes, hmethods⟩ := List.forall_mem_append.1 h.entries
  refine List.forall_mem_append.2 ⟨List.forall_mem_append.2 ⟨List.forall_mem_cons.2 ⟨?_, hnote⟩,
    oneLine_entryLines (by decide) hattributes⟩, oneLine_entryLines (by decide) hmethods⟩
  have hparent := h.parent
  cases hp : n.parent with
  | none => simp +decide [oneLine_verdict, h.className]
  | some parent => simp +decide [oneLine_verdict, h.className, hparent parent hp]

theorem oneLine_lines {r : Report} (hreference : OneLine r.referenceLabel)
    (hcandidate : OneLine r.candidateLabel) (hnodes : ∀ n ∈ r.nodes, n.OneLine)
    (hcount : ∀ e ∈ r.countNote, OneLine e.message) : ∀ line ∈ r.lines, OneLine line := by
  refine List.forall_mem_append.2 ⟨List.forall_mem_cons.2 ⟨?_, fun line hline => ?_⟩,
    List.forall_mem_map.2 fun e he => ?_⟩
  · simp +decide [hreference, hcandidate, oneLine_verdict]
  · obtain ⟨n, hn, hline⟩ := List.mem_flatMap.1 hline
    exact oneLine_nodeLines (hnodes n hn) line hline
  · simp +decide [hcount e (Option.mem_toList.1 he)]

end Report

def Sourced (rs : List ClassRecord) : Prop := ∀ r ∈ rs, ∃ source, r ∈ (parse source).classes

theorem Sourced.clean {rs : List ClassRecord} (h : Sourced rs) : ∀ r ∈ rs, r.Clean := by
  intro r hr
  obtain ⟨source, hsource⟩ := h r hr
  exact clean_of_mem_parse hsource

theorem sourced_flatMap (sources : List String) :
    Sourced (sources.flatMap fun source => (parse source).classes) := by
  intro r hr
  obtain ⟨source, -, hsource⟩ := List.mem_flatMap.1 hr
  exact ⟨source, hsource⟩

theorem Sourced.pool {rs : List ClassRecord} (h : Sourced rs) : Sourced (pool rs) :=
  fun r hr => h r (Pool.mem_pool.1 hr).mem

theorem oneLine_compareReport {labels : Labels} (hl : labels.OneLine)
    {reference candidate : List ClassRecord} (hreference : Sourced reference)
    (hcandidate : Sourced candidate) :
    ∀ line ∈ (compareReport labels reference candidate).lines, OneLine line := by
  refine Report.oneLine_lines hl.reference hl.candidate (fun n hn => ?_)
    (Comparison.oneLine_countNote hl _ _)
  obtain ⟨target, htarget, rfl⟩ := Comparison.mem_compare.1 hn
  exact Comparison.oneLine_node hl hcandidate.clean (hreference.clean target htarget.mem)

/-- What is read from a source is clean. So where the labels do not break the line, the text of a
comparison of records from any sources, pooled or not, has one line for each item, in order. -/
theorem report_line_per_item :
    (∀ source, ∀ r ∈ (parse source).classes, r.Clean) ∧
    (∀ sources : List String,
      let read := sources.flatMap fun source => (parse source).classes
      Sourced read ∧ Sourced (pool read)) ∧
    ∀ (labels : Labels) (reference candidate : List ClassRecord), labels.OneLine →
      Sourced reference → Sourced candidate →
      let r := compareReport labels reference candidate
      ∃ lines : List String,
        Text.split '\n' r.renderText.toList = lines.map String.toList ++ [[]] ∧
        List.Forall₂ r.Shows r.items lines ∧
        lines.length =
          1 + Report.nodesCount r.nodes + if r.countNote.isSome then 1 else 0 := by
  refine ⟨fun source r => clean_of_mem_parse, fun sources => ⟨sourced_flatMap sources,
    (sourced_flatMap sources).pool⟩, ?_⟩
  intro labels reference candidate hl hreference hcandidate r
  refine ⟨r.lines, Text.split_lines (oneLine_compareReport hl hreference hcandidate),
    r.shows_lines, ?_⟩
  rw [← r.shows_lines.length_eq, r.length_items]

def brokenLines : String :=
  "class\nDog extends\r\nAnimal \x7b private int\nlegs; " ++
    "Map<K,V> of (final\n  int\tn, Map<A,\n B> c) \x7b\x7d \x7d"

def strayUnits : List String := ["class Dog \x7b private int legs; \x7d", "class Cat \x7b\x7d"]

/-- The text still has one line for each of the eight items. -/
theorem report_brokenLines :
    let reference := (parse brokenLines).classes
    let candidate := pool (strayUnits.flatMap fun source => (parse source).classes)
    let r := compareReport ⟨"left", "right"⟩ reference candidate
    reference.length = 1 ∧ candidate.length = 2 ∧ (∀ c ∈ reference, c.Clean) ∧
    ∃ lines : List String,
      Text.split '\n' r.renderText.toList = lines.map String.toList ++ [[]] ∧
      List.Forall₂ r.Shows r.items lines ∧ lines.length = 8 := by
  intro reference candidate r
  obtain ⟨lines, htext, hshows, hlength⟩ := report_line_per_item.2.2 ⟨"left", "right"⟩ reference
    candidate ⟨by decide, by decide⟩ (fun c hc => ⟨brokenLines, hc⟩)
    (report_line_per_item.2.1 strayUnits).2
  exact ⟨by decide +kernel, by decide +kernel, report_line_per_item.1 brokenLines, lines, htext,
    hshows, hlength.trans (by decide +kernel)⟩

end ClassShape
