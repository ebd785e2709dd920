import ClassShape.Proofs.Naming
import ClassShape.Proofs.Tally
import Mathlib.Data.Multiset.Count

/-! The meaning of a verdict. A candidate class conforms to a reference class when the parents are
equal and each signature of the reference occurs equally often in both; a report is a match when
the two sides have the same names and every class conforms. The grading so defined is a preorder,
and two sides that grade each other have the same shape. -/
namespace ClassShape

def ClassRecord.attributeSignatures (r : ClassRecord) : List AttributeSignature :=
  r.attributes.map Attribute.signature

def ClassRecord.methodSignatures (r : ClassRecord) : List MethodSignature :=
  r.methods.map Method.signature

/-- Every item of `reference` occurs equally often in `candidate`; items that only `candidate` has
are free. -/
def Covers {σ : Type} [DecidableEq σ] (candidate reference : List σ) : Prop :=
  ∀ s ∈ reference, reference.count s = candidate.count s

namespace Covers
variable {σ : Type} [DecidableEq σ] {xs ys zs : List σ}

theorem refl (xs : List σ) : Covers xs xs := fun _ _ => rfl

/-- An item of the reference occurs in the middle list too, and so is counted there. -/
theorem trans (hxy : Covers ys xs) (hyz : Covers zs ys) : Covers zs xs := by
  intro s hs
  have hpos : 0 < ys.count s := hxy s hs ▸ List.count_pos_iff.2 hs
  exact (hxy s hs).trans (hyz s (List.count_pos_iff.1 hpos))

theorem antisymm_iff : Covers ys xs ∧ Covers xs ys ↔ (xs : Multiset σ) = ys := by
  rw [Multiset.coe_eq_coe, List.perm_iff_count]
  constructor
  · intro hcovers s
    obtain ⟨hxy, hyx⟩ := hcovers
    by_cases hs : s ∈ xs
    · exact hxy s hs
    · by_cases ht : s ∈ ys
      · exact (hyx s ht).symm
      · rw [List.count_eq_zero_of_not_mem hs, List.count_eq_zero_of_not_mem ht]
  · intro h
    exact ⟨fun s _ => h s, fun s _ => (h s).symm⟩

end Covers

structure Conforms (target counterpart : ClassRecord) : Prop where
  parent : target.parent = counterpart.parent
  attributes : Covers counterpart.attributeSignatures target.attributeSignatures
  methods : Covers counterpart.methodSignatures target.methodSignatures

namespace Conforms
variable {r s t : ClassRecord}

theorem refl (r : ClassRecord) : Conforms r r := ⟨rfl, Covers.refl _, Covers.refl _⟩

theorem trans (hrs : Conforms r s) (hst : Conforms s t) : Conforms r t :=
  ⟨hrs.parent.trans hst.parent, hrs.attributes.trans hst.attributes, hrs.methods.trans hst.methods⟩

theorem antisymm_iff : Conforms r s ∧ Conforms s r ↔
    r.parent = s.parent ∧ (r.attributeSignatures : Multiset AttributeSignature) =
      s.attributeSignatures ∧ (r.methodSignatures : Multiset MethodSignature) =
      s.methodSignatures := by
  rw [← Covers.antisymm_iff, ← Covers.antisymm_iff]
  constructor
  · intro hconf
    obtain ⟨hrs, hsr⟩ := hconf
    exact ⟨hrs.parent, ⟨hrs.attributes, hsr.attributes⟩, hrs.methods, hsr.methods⟩
  · intro hsame
    obtain ⟨hp, ⟨ha, ha'⟩, hm, hm'⟩ := hsame
    exact ⟨⟨hp, ha, hm⟩, hp.symm, ha', hm'⟩

end Conforms

def Meets (candidate : List ClassRecord) (target : ClassRecord) : Prop :=
  ∃ counterpart, Latest candidate counterpart ∧ counterpart.name = target.name ∧
    Conforms target counterpart

namespace Comparison
variable {σ : Type} [DecidableEq σ]

theorem entry_severity_ok_iff (labels : Labels) (text : String) (count : Nat)
    (found : Option Nat) : (entry labels text count found).severity = .ok ↔ found = some count := by
  cases found with
  | none => simp [entry]
  | some n =>
    simp only [entry, Option.some.injEq]
    split
    · simp; omega
    · split
      · simp; omega
      · simp; omega

theorem memberEntries_ok_iff (labels : Labels) (text : σ → String) (reference candidate : List σ) :
    (∀ e ∈ memberEntries labels text reference candidate, e.severity = .ok) ↔
      Covers candidate reference := by
  have hentry : ∀ s ∈ reference,
      (entry labels (text s) (reference.count s) ((Tally.ofList candidate).get? s)).severity = .ok ↔
        reference.count s = candidate.count s := by
    intro s hs
    have hpos : 0 < reference.count s := List.count_pos_iff.2 hs
    rw [entry_severity_ok_iff, Tally.get?_ofList_eq_count]
    split
    · simp [eq_comm]
    · simp; omega
  simp only [memberEntries, List.forall_mem_map]
  constructor
  · intro h s hs
    exact (hentry s hs).1 (h (s, _) (Tally.mem_entries_ofList.2 ⟨hs, rfl⟩))
  · intro h e he
    obtain ⟨s, n⟩ := e
    obtain ⟨hs, rfl⟩ := Tally.mem_entries_ofList.1 he
    exact (hentry s hs).2 (h s hs)

theorem inheritanceNote_eq_none_iff (labels : Labels) (reference candidate : Option String) :
    inheritanceNote labels reference candidate = none ↔ reference = candidate := by
  cases reference with
  | none => cases candidate <;> simp [inheritanceNote]
  | some a =>
    cases candidate with
    | none => simp [inheritanceNote]
    | some b => by_cases h : a = b <;> simp [inheritanceNote, h]

theorem countNote_eq_none_iff (labels : Labels) (reference candidate : Nat) :
    countNote labels reference candidate = none ↔ reference = candidate := by
  simp [countNote]

theorem classNode_agrees_iff_clean (labels : Labels) (target counterpart : ClassRecord) :
    (classNode labels target counterpart).agrees = true ↔
      (classNode labels target counterpart).note = none ∧
        ∀ e ∈ (classNode labels target counterpart).entries, e.severity = .ok := by
  simp only [Node.agrees, classNode, Node.entries]
  split
  · rename_i hd
    simp only [Bool.or_eq_true, List.any_eq_true, Option.isSome_iff_ne_none] at hd
    refine iff_of_false (by simp) ?_
    intro hclean
    obtain ⟨hnote, hok⟩ := hclean
    rcases hd with hd | ⟨e, he, hbad⟩
    · exact hd hnote
    · simp [hok e he] at hbad
  · rename_i hd
    simp only [Bool.or_eq_true, List.any_eq_true, not_or, not_exists, not_and] at hd
    refine iff_of_true (by simp) ⟨by simpa using hd.1, ?_⟩
    intro e he
    simpa using hd.2 e he

theorem classNode_agrees_iff (labels : Labels) (target counterpart : ClassRecord) :
    (classNode labels target counterpart).agrees = true ↔ Conforms target counterpart := by
  rw [classNode_agrees_iff_clean]
  simp only [classNode, Node.entries, List.forall_mem_append, inheritanceNote_eq_none_iff,
    memberEntries_ok_iff]
  exact ⟨fun ⟨hp, ha, hm⟩ => ⟨hp, ha, hm⟩, fun h => ⟨h.parent, h.attributes, h.methods⟩⟩

def node (labels : Labels) (candidate : List ClassRecord) (target : ClassRecord) : Node :=
  match lastOf? candidate target.name with
  | some counterpart => classNode labels target counterpart
  | none => missingNode labels target

theorem mem_compare {labels : Labels} {reference candidate : List ClassRecord} {n : Node} :
    n ∈ compare labels reference candidate ↔
      ∃ target, Latest reference target ∧ node labels candidate target = n := by
  simp only [compare, List.mem_filterMap, Option.map_eq_some_iff]
  constructor
  · intro hnode
    obtain ⟨name, _, target, htarget, rfl⟩ := hnode
    obtain ⟨hlatest, rfl⟩ := lastOf?_eq_some_iff.1 htarget
    exact ⟨target, hlatest, rfl⟩
  · intro hnode
    obtain ⟨target, hlatest, rfl⟩ := hnode
    exact ⟨target.name, mem_distinctNames.2 hlatest.name_mem, target,
      lastOf?_eq_some_iff.2 ⟨hlatest, rfl⟩, rfl⟩

theorem node_agrees_iff (labels : Labels) (candidate : List ClassRecord) (target : ClassRecord) :
    (node labels candidate target).agrees = true ↔ Meets candidate target := by
  cases hl : lastOf? candidate target.name with
  | none =>
    have hnot := lastOf?_eq_none_iff.1 hl
    simp only [node, hl]
    refine iff_of_false (by simp [Node.agrees, missingNode]) ?_
    intro hmeets
    obtain ⟨counterpart, hlatest, hname, _⟩ := hmeets
    exact hnot (hname ▸ hlatest.name_mem)
  | some counterpart =>
    obtain ⟨hlatest, hname⟩ := lastOf?_eq_some_iff.1 hl
    simp only [node, hl]
    rw [classNode_agrees_iff]
    refine ⟨fun h => ⟨counterpart, hlatest, hname, h⟩, ?_⟩
    intro hmeets
    obtain ⟨other, hother, hothername, hconf⟩ := hmeets
    rwa [← hother.eq_of_name hlatest (hothername.trans hname.symm)]

theorem exists_agrees_iff (labels : Labels) (reference candidate : List ClassRecord) :
    (∃ n ∈ compare labels reference candidate, n.agrees = true) ↔
      ∃ target counterpart, Latest reference target ∧ Latest candidate counterpart ∧
        target.name = counterpart.name ∧ Conforms target counterpart := by
  constructor
  · intro hagree
    obtain ⟨n, hn, ha⟩ := hagree
    obtain ⟨target, ht, rfl⟩ := mem_compare.1 hn
    obtain ⟨counterpart, hc, hname, hconf⟩ := (node_agrees_iff _ _ _).1 ha
    exact ⟨target, counterpart, ht, hc, hname.symm, hconf⟩
  · intro hpair
    obtain ⟨target, counterpart, ht, hc, hname, hconf⟩ := hpair
    refine ⟨_, mem_compare.2 ⟨target, ht, rfl⟩, ?_⟩
    exact (node_agrees_iff _ _ _).2 ⟨counterpart, hc, hname.symm, hconf⟩

/-- A node that agrees has nothing to say against the candidate. -/
theorem clean_of_agrees {labels : Labels} {reference candidate : List ClassRecord} {n : Node}
    (hn : n ∈ compare labels reference candidate) (ha : n.agrees = true) :
    n.note = none ∧ ∀ e ∈ n.entries, e.severity = .ok := by
  obtain ⟨target, _, rfl⟩ := mem_compare.1 hn
  unfold node at ha ⊢
  split at ha
  · exact (classNode_agrees_iff_clean labels target _).1 ha
  · simp [Node.agrees, missingNode] at ha

end Comparison

namespace Report

theorem isMatch_iff (r : Report) :
    r.isMatch = true ↔ (∀ n ∈ r.nodes, n.agrees = true) ∧ r.countNote = none := by
  rw [← List.countP_eq_length, ← Option.isNone_iff_eq_none]
  simp only [isMatch, overall]
  split
  · rename_i h
    simpa using h
  · rename_i h
    refine iff_of_false ?_ h
    split <;> simp

theorem overall_eq_differ_iff (r : Report) :
    r.overall = .differ ↔ r.isMatch = false ∧ ∀ n ∈ r.nodes, ¬ n.agrees = true := by
  rw [← List.countP_eq_zero]
  simp only [isMatch, overall]
  split
  · simp
  · split <;> simp_all

theorem overall_eq_mixed_iff (r : Report) :
    r.overall = .mixed ↔ r.isMatch = false ∧ ∃ n ∈ r.nodes, n.agrees = true := by
  rw [← List.countP_pos_iff, Nat.pos_iff_ne_zero]
  simp only [isMatch, overall]
  split
  · simp
  · split <;> simp_all

end Report

/-- The same names, and every candidate class conforms to the reference class of its name. -/
def Grades (reference candidate : List ClassRecord) : Prop :=
  classNames reference = classNames candidate ∧
    ∀ target counterpart, Latest reference target → Latest candidate counterpart →
      target.name = counterpart.name → Conforms target counterpart

/-- Every reference name is found and the numbers of names agree, so the names do. -/
theorem classNames_eq_of_meets {reference candidate : List ClassRecord}
    (hmeets : ∀ target, Latest reference target → Meets candidate target)
    (hcount : (distinctNames reference).length = (distinctNames candidate).length) :
    classNames reference = classNames candidate := by
  refine Finset.eq_of_subset_of_card_le ?_ ?_
  · intro name hname
    obtain ⟨target, hlatest, rfl⟩ := exists_latest hname
    obtain ⟨counterpart, hcounterpart, hsame, _⟩ := hmeets target hlatest
    exact hsame ▸ hcounterpart.name_mem
  · rw [card_classNames, card_classNames, hcount]

theorem isMatch_compareReport_iff (labels : Labels) (reference candidate : List ClassRecord) :
    (compareReport labels reference candidate).isMatch = true ↔ Grades reference candidate := by
  have hnodes : (∀ n ∈ compare labels reference candidate, n.agrees = true) ↔
      ∀ target, Latest reference target → Meets candidate target := by
    simp only [Comparison.mem_compare, ← Comparison.node_agrees_iff labels]
    exact ⟨fun h target ht => h _ ⟨target, ht, rfl⟩, fun h n ⟨target, ht, hn⟩ => hn ▸ h target ht⟩
  rw [Report.isMatch_iff]
  simp only [compareReport, Comparison.countNote_eq_none_iff, hnodes]
  constructor
  · intro hmatch
    obtain ⟨hmeets, hcount⟩ := hmatch
    refine ⟨classNames_eq_of_meets hmeets hcount, ?_⟩
    intro target counterpart ht hc hname
    obtain ⟨other, hother, hsame, hconf⟩ := hmeets target ht
    rwa [← hother.eq_of_name hc (hsame.trans hname)]
  · intro hgrades
    obtain ⟨hnames, hconf⟩ := hgrades
    refine ⟨fun target ht => ?_, by rw [← card_classNames, ← card_classNames, hnames]⟩
    obtain ⟨counterpart, hc, hname⟩ := exists_latest (hnames ▸ ht.name_mem)
    exact ⟨counterpart, hc, hname, hconf target counterpart ht hc hname.symm⟩

namespace Grades
variable {a b c : List ClassRecord}

theorem refl (a : List ClassRecord) : Grades a a := by
  refine ⟨rfl, fun target counterpart ht hc hname => ?_⟩
  rw [ht.eq_of_name hc hname]
  exact Conforms.refl counterpart

theorem trans (hab : Grades a b) (hbc : Grades b c) : Grades a c := by
  refine ⟨hab.1.trans hbc.1, fun target counterpart ht hc hname => ?_⟩
  obtain ⟨middle, hm, hmname⟩ := exists_latest (hab.1 ▸ ht.name_mem)
  exact (hab.2 target middle ht hm hmname.symm).trans
    (hbc.2 middle counterpart hm hc (hmname.trans hname))

theorem antisymm_iff : Grades a b ∧ Grades b a ↔
    classNames a = classNames b ∧ ∀ r s, Latest a r → Latest b s → r.name = s.name →
      r.parent = s.parent ∧ (r.attributeSignatures : Multiset AttributeSignature) =
        s.attributeSignatures ∧ (r.methodSignatures : Multiset MethodSignature) =
        s.methodSignatures := by
  simp only [← Conforms.antisymm_iff]
  constructor
  · intro hgrades
    obtain ⟨hab, hba⟩ := hgrades
    exact ⟨hab.1, fun r s hr hs hname => ⟨hab.2 r s hr hs hname, hba.2 s r hs hr hname.symm⟩⟩
  · intro hsame
    obtain ⟨hnames, h⟩ := hsame
    exact ⟨⟨hnames, fun r s hr hs hname => (h r s hr hs hname).1⟩,
      hnames.symm, fun s r hs hr hname => (h r s hr hs hname.symm).2⟩

end Grades

/-- A report matches when both sides have the same names and each class conforms; otherwise it
differs altogether when no class conforms, and in part when some class does. -/
theorem verdict_of_conformance (labels : Labels) (reference candidate : List ClassRecord) :
    ((compareReport labels reference candidate).isMatch = true ↔
      classNames reference = classNames candidate ∧
        ∀ target counterpart, Latest reference target → Latest candidate counterpart →
          target.name = counterpart.name → Conforms target counterpart) ∧
    ((compareReport labels reference candidate).overall = .differ ↔
      (compareReport labels reference candidate).isMatch = false ∧
        ¬ ∃ target counterpart, Latest reference target ∧ Latest candidate counterpart ∧
          target.name = counterpart.name ∧ Conforms target counterpart) ∧
    ((compareReport labels reference candidate).overall = .mixed ↔
      (compareReport labels reference candidate).isMatch = false ∧
        ∃ target counterpart, Latest reference target ∧ Latest candidate counterpart ∧
          target.name = counterpart.name ∧ Conforms target counterpart) := by
  refine ⟨isMatch_compareReport_iff labels reference candidate, ?_, ?_⟩
  · rw [Report.overall_eq_differ_iff, ← Comparison.exists_agrees_iff labels]
    simp [compareReport]
  · rw [Report.overall_eq_mixed_iff, ← Comparison.exists_agrees_iff labels]
    rfl

/-- Grading is a preorder, whatever the labels: each side grades itself with nothing to report,
and two sides grade each other when they have the same shape, name by name. -/
theorem grading_preorder :
    (∀ labels a, (compareReport labels a a).isMatch = true ∧
      (∀ n ∈ (compareReport labels a a).nodes, n.note = none ∧
        ∀ e ∈ n.entries, e.severity = .ok) ∧
      (compareReport labels a a).countNote = none) ∧
    (∀ l₁ l₂ l₃ a b c, (compareReport l₁ a b).isMatch = true →
      (compareReport l₂ b c).isMatch = true → (compareReport l₃ a c).isMatch = true) ∧
    (∀ l₁ l₂ a b, (compareReport l₁ a b).isMatch = true ∧ (compareReport l₂ b a).isMatch = true ↔
      classNames a = classNames b ∧ ∀ r s, Latest a r → Latest b s → r.name = s.name →
        r.parent = s.parent ∧ (r.attributeSignatures : Multiset AttributeSignature) =
          s.attributeSignatures ∧ (r.methodSignatures : Multiset MethodSignature) =
          s.methodSignatures) := by
  refine ⟨?_, ?_, ?_⟩
  · intro labels a
    have hmatch := (isMatch_compareReport_iff labels a a).2 (Grades.refl a)
    obtain ⟨hagree, hnote⟩ := (Report.isMatch_iff _).1 hmatch
    exact ⟨hmatch, fun n hn => Comparison.clean_of_agrees hn (hagree n hn), hnote⟩
  · intro l₁ l₂ l₃ a b c
    simp only [isMatch_compareReport_iff]
    exact Grades.trans
  · intro l₁ l₂ a b
    simp only [isMatch_compareReport_iff]
    exact Grades.antisymm_iff

end ClassShape
