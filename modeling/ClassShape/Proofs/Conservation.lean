import ClassShape.Proofs.Contents

/-! What the counters of a report add up to. Every distinct signature of a reference class is counted
under one severity, and so is every inheritance note; a class that the candidate lacks is counted by
its signatures alone, so that one without members leaves no trace. -/
namespace ClassShape

def ClassRecord.signatureCount (r : ClassRecord) : Nat :=
  r.attributeSignatures.toFinset.card + r.methodSignatures.toFinset.card

def signatureTotal : List ClassRecord → Nat
  | [] => 0
  | r :: rs => r.signatureCount + signatureTotal rs

/-- A severity is one of five. -/
theorem Severity.count_add_count (ss : List Severity) :
    ss.count .added + ss.count .removed + ss.count .countHigh + ss.count .countLow + ss.count .ok =
      ss.length := by
  induction ss with
  | nil => rfl
  | cons s ss ih =>
    rw [List.length_cons, ← ih]
    cases s <;> simp <;> omega

theorem Severity.eq_ok_iff {ss : List Severity} :
    (∀ s ∈ ss, s = .ok) ↔ ss.count .added = 0 ∧ ss.count .removed = 0 ∧ ss.count .countHigh = 0 ∧
      ss.count .countLow = 0 := by
  have hcount := count_add_count ss
  have hok : (∀ s ∈ ss, s = .ok) ↔ ss.count .ok = ss.length := by
    rw [List.count_eq_length]
    exact forall₂_congr fun s _ => eq_comm
  rw [hok]
  omega

def Node.severities (n : Node) : List Severity :=
  n.entries.map Entry.severity ++ n.note.toList.map InheritanceNote.severity

theorem Node.length_severities (n : Node) :
    n.severities.length = n.entries.length + if n.note.isSome then 1 else 0 := by
  cases hn : n.note <;> simp [severities, hn]

theorem Report.severities_eq (r : Report) : r.severities = r.nodes.flatMap Node.severities := rfl

namespace Comparison
variable {σ : Type} [DecidableEq σ]

theorem length_entries_ofList (xs : List σ) :
    (Tally.ofList xs).entries.length = xs.toFinset.card := by
  rw [Tally.entries_ofList, List.length_map, ← List.toFinset_card_of_nodup (Tally.nodup_eraseDups xs)]
  congr 1
  ext s
  rw [List.mem_toFinset, List.mem_toFinset, List.mem_eraseDups]

theorem length_memberEntries (labels : Labels) (text : σ → String) (reference candidate : List σ) :
    (memberEntries labels text reference candidate).length = reference.toFinset.card := by
  rw [memberEntries, List.length_map, length_entries_ofList]

theorem length_missingEntries (labels : Labels) (className : String) (text : σ → String)
    (reference : List σ) :
    (missingEntries labels className text reference).length = reference.toFinset.card := by
  rw [missingEntries, List.length_map, length_entries_ofList]

theorem severity_inheritanceNote {labels : Labels} {a b : Option String} {i : InheritanceNote}
    (h : i ∈ inheritanceNote labels a b) : i.severity = .removed := by
  unfold inheritanceNote at h
  split at h
  · cases h; rfl
  · cases h; rfl
  · split at h
    · cases h
    · cases h; rfl
  · cases h

section Node
variable (labels : Labels) (candidate : List ClassRecord) (target counterpart : ClassRecord)

theorem length_entries_classNode :
    (classNode labels target counterpart).entries.length = target.signatureCount := by
  rw [Node.entries, List.length_append]
  exact congrArg₂ (· + ·) (length_memberEntries _ _ _ _) (length_memberEntries _ _ _ _)

theorem length_entries_missingNode :
    (missingNode labels target).entries.length = target.signatureCount := by
  rw [Node.entries, List.length_append]
  exact congrArg₂ (· + ·) (length_missingEntries _ _ _ _) (length_missingEntries _ _ _ _)

theorem added_notMem_classNode : .added ∉ (classNode labels target counterpart).severities := by
  intro h
  cases List.mem_append.1 h with
  | inl hentry =>
    obtain ⟨e, he, hadded⟩ := List.mem_map.1 hentry
    cases List.mem_append.1 he with
    | inl he => exact memberEntries_ne_added _ _ _ _ e he hadded
    | inr he => exact memberEntries_ne_added _ _ _ _ e he hadded
  | inr hnote =>
    obtain ⟨i, hi, hadded⟩ := List.mem_map.1 hnote
    rw [severity_inheritanceNote (Option.mem_toList.1 hi)] at hadded
    cases hadded

theorem severities_missingNode :
    (missingNode labels target).severities = List.replicate target.signatureCount .added := by
  rw [List.eq_replicate_iff, Node.length_severities, length_entries_missingNode]
  refine ⟨rfl, fun s hs => ?_⟩
  obtain ⟨e, he, rfl⟩ : ∃ e ∈ (missingNode labels target).entries, e.severity = s := by
    simpa [Node.severities, missingNode] using hs
  cases List.mem_append.1 he with
  | inl he => exact missingEntries_added _ _ _ _ e he
  | inr he => exact missingEntries_added _ _ _ _ e he

theorem length_severities_node :
    (node labels candidate target).severities.length =
      target.signatureCount + if (node labels candidate target).note.isSome then 1 else 0 := by
  rw [Node.length_severities]
  unfold node
  split
  · rw [length_entries_classNode]
  · rw [length_entries_missingNode]

theorem count_added_node :
    (node labels candidate target).severities.count .added =
      if target.name ∈ classNames candidate then 0 else target.signatureCount := by
  cases hl : lastOf? candidate target.name with
  | none =>
    rw [if_neg (lastOf?_eq_none_iff.1 hl)]
    simp [node, hl, severities_missingNode]
  | some found =>
    obtain ⟨hfound, hname⟩ := lastOf?_eq_some_iff.1 hl
    rw [if_pos (hname ▸ hfound.name_mem), List.count_eq_zero]
    simpa [node, hl] using added_notMem_classNode labels target found

theorem classNode_agree_iff : (classNode labels target counterpart).verdict = .agree ↔
    ∀ s ∈ (classNode labels target counterpart).severities, s = .ok := by
  rw [(classNode_weighs labels target counterpart).agree]
  constructor
  · intro h s hs
    obtain ⟨e, he, rfl⟩ : ∃ e ∈ (classNode labels target counterpart).entries, e.severity = s := by
      simpa [Node.severities, h.1] using hs
    exact h.2 e he
  · intro h
    refine ⟨Option.eq_none_iff_forall_not_mem.2 fun i hi => ?_, fun e he => ?_⟩
    · have hok := h i.severity (List.mem_append_right _ (List.mem_map.2
        ⟨i, Option.mem_toList.2 hi, rfl⟩))
      rw [severity_inheritanceNote hi] at hok
      cases hok
    · exact h e.severity (List.mem_append_left _ (List.mem_map.2 ⟨e, he, rfl⟩))

/-- The counters of a node tell its verdict, but for a class that the candidate lacks. -/
theorem node_agree_iff : (node labels candidate target).verdict = .agree ↔
    target.name ∈ classNames candidate ∧
      ∀ s ∈ (node labels candidate target).severities, s = .ok := by
  cases hl : lastOf? candidate target.name with
  | none =>
    have hnot := lastOf?_eq_none_iff.1 hl
    simp [node, hl, hnot, missingNode]
  | some found =>
    obtain ⟨hfound, hname⟩ := lastOf?_eq_some_iff.1 hl
    have hmem : target.name ∈ classNames candidate := hname ▸ hfound.name_mem
    simpa [node, hl, hmem] using classNode_agree_iff labels target found

end Node

section Nodes
variable (labels : Labels) (candidate targets : List ClassRecord)

theorem length_severities_nodes :
    ((targets.map (node labels candidate)).flatMap Node.severities).length =
      signatureTotal targets +
        (targets.map (node labels candidate)).countP fun n => n.note.isSome := by
  induction targets with
  | nil => rfl
  | cons target targets ih =>
    rw [List.map_cons, List.flatMap_cons, List.length_append, ih, length_severities_node,
      signatureTotal, List.countP_cons]
    omega

theorem count_added_nodes :
    ((targets.map (node labels candidate)).flatMap Node.severities).count .added =
      signatureTotal (targets.filter fun target => target.name ∉ classNames candidate) := by
  induction targets with
  | nil => rfl
  | cons target targets ih =>
    rw [List.map_cons, List.flatMap_cons, List.count_append, ih, count_added_node]
    by_cases hname : target.name ∈ classNames candidate
    · simp [hname]
    · simp [hname, signatureTotal]

theorem nodes_agree_iff :
    (∀ n ∈ targets.map (node labels candidate), n.verdict = .agree) ↔
      (∀ target ∈ targets, target.name ∈ classNames candidate) ∧
        ∀ s ∈ (targets.map (node labels candidate)).flatMap Node.severities, s = .ok := by
  constructor
  · intro h
    have hnode := fun target ht =>
      (node_agree_iff labels candidate target).1 (h _ (List.mem_map_of_mem ht))
    refine ⟨fun target ht => (hnode target ht).1, fun s hs => ?_⟩
    obtain ⟨n, hn, hs⟩ := List.mem_flatMap.1 hs
    obtain ⟨target, ht, rfl⟩ := List.mem_map.1 hn
    exact (hnode target ht).2 s hs
  · intro h n hn
    obtain ⟨target, ht, rfl⟩ := List.mem_map.1 hn
    exact (node_agree_iff labels candidate target).2
      ⟨h.1 target ht, fun s hs => h.2 s (List.mem_flatMap.2 ⟨_, hn, hs⟩)⟩

end Nodes
end Comparison

theorem nodup_latestRecords (rs : List ClassRecord) : (latestRecords rs).Nodup := by
  rw [← Pool.pool_eq_latestRecords]
  exact (Pool.nodup_names_pool rs).of_map

theorem classNames_subset_iff {reference candidate : List ClassRecord} :
    classNames reference ⊆ classNames candidate ↔
      ∀ target ∈ latestRecords reference, target.name ∈ classNames candidate := by
  constructor
  · intro h target ht
    exact h (mem_latestRecords.1 ht).name_mem
  · intro h name hname
    obtain ⟨target, hlatest, rfl⟩ := exists_latest hname
    exact h target (mem_latestRecords.2 hlatest)

/-- The five counters of a report add up to the distinct signatures of the last records of the
reference, each record for itself, and the notes. The additions are those of the classes that the
candidate lacks. All classes agree just if nothing else than `ok` is counted and the candidate has
every class. -/
theorem severities_conserved (labels : Labels) (reference candidate : List ClassRecord) :
    let r := compareReport labels reference candidate
    ∃ targets : List ClassRecord,
      targets.Nodup ∧ (∀ target, target ∈ targets ↔ Latest reference target) ∧
      r.severityCount .added + r.severityCount .removed + r.severityCount .countHigh +
          r.severityCount .countLow + r.severityCount .ok =
        signatureTotal targets + r.nodes.countP (fun n => n.note.isSome) ∧
      r.severityCount .added =
        signatureTotal (targets.filter fun target => target.name ∉ classNames candidate) ∧
      ((∀ n ∈ r.nodes, n.verdict = .agree) ↔
        (r.severityCount .added = 0 ∧ r.severityCount .removed = 0 ∧
          r.severityCount .countHigh = 0 ∧ r.severityCount .countLow = 0) ∧
        classNames reference ⊆ classNames candidate) := by
  intro r
  have hnodes : r.nodes = (latestRecords reference).map (Comparison.node labels candidate) :=
    compare_eq_map labels reference candidate
  refine ⟨latestRecords reference, nodup_latestRecords reference, fun _ => mem_latestRecords, ?_⟩
  simp only [Report.severityCount, Report.severities_eq, hnodes]
  refine ⟨?_, Comparison.count_added_nodes labels candidate _, ?_⟩
  · rw [Severity.count_add_count, Comparison.length_severities_nodes]
  · rw [Comparison.nodes_agree_iff, Severity.eq_ok_iff, classNames_subset_iff, and_comm]

/-- A class without members that the candidate lacks: no counter shows it. -/
example : let r := compareReport {} [⟨"A", none, [], []⟩] []
    Severity.all.all (fun s => r.severityCount s = 0) ∧ r.nodes.map Node.verdict = [.differ] := by
  decide +kernel

end ClassShape
