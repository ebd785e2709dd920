import ClassShape.Proofs.PoolLaws

/-! What the nodes of a comparison hold. Each class name of the reference has one node, built from
its last record, and each signature of that record has one entry in it, which weighs how often the
signature occurs on the two sides. Entries go by signatures; two of them may have the same text. -/
namespace ClassShape

/-- One entry for each distinct signature, in the order of first occurrences, of which `holds` is
true beside its signature. -/
def Listed {σ : Type} [DecidableEq σ] (text : σ → String) (holds : σ → Entry → Prop)
    (signatures : List σ) (entries : List Entry) : Prop :=
  List.Forall₂ (fun s e => e.signature = text s ∧ holds s e) signatures.eraseDups entries

structure Entry.Lacking (a : Nat) (e : Entry) : Prop where
  severity : e.severity = .added
  count : e.count = some a
  candidateCount : e.candidateCount = none

/-- The entry of a signature that occurs `a` times in a class of the reference and `b` times in the
candidate's class of that name. -/
structure Entry.Weighs (a b : Nat) (e : Entry) : Prop where
  removed : (e.severity = .removed ∧ e.count = none ∧ e.candidateCount = none) ↔ b = 0
  low : (e.severity = .countLow ∧ e.count = some a ∧ e.candidateCount = some b) ↔ 0 < b ∧ b < a
  high : (e.severity = .countHigh ∧ e.count = some a ∧ e.candidateCount = some b) ↔ a < b
  ok : (e.severity = .ok ∧ e.count = some a ∧ e.candidateCount = none) ↔ b = a

structure Node.Lacking (target : ClassRecord) (n : Node) : Prop where
  note : n.note = none
  verdict : n.verdict = .differ
  attributes : Listed AttributeSignature.text
    (fun s => Entry.Lacking (target.attributeSignatures.count s))
    target.attributeSignatures n.attributes
  methods : Listed MethodSignature.text (fun s => Entry.Lacking (target.methodSignatures.count s))
    target.methodSignatures n.methods

structure Node.Weighs (target counterpart : ClassRecord) (n : Node) : Prop where
  note : n.note.isSome = true ↔ target.parent ≠ counterpart.parent
  differ : n.verdict = .differ ↔ n.note.isSome = true ∨ ∃ e ∈ n.entries, e.severity ≠ .ok
  agree : n.verdict = .agree ↔ n.note = none ∧ ∀ e ∈ n.entries, e.severity = .ok
  not_mixed : n.verdict ≠ .mixed
  attributes : Listed AttributeSignature.text
    (fun s => Entry.Weighs (target.attributeSignatures.count s)
      (counterpart.attributeSignatures.count s))
    target.attributeSignatures n.attributes
  methods : Listed MethodSignature.text
    (fun s => Entry.Weighs (target.methodSignatures.count s) (counterpart.methodSignatures.count s))
    target.methodSignatures n.methods

namespace Comparison
variable {σ : Type} [DecidableEq σ]

theorem signature_entry (labels : Labels) (text : String) (count : Nat) (found : Option Nat) :
    (entry labels text count found).signature = text := by
  cases found with
  | none => rfl
  | some n =>
    simp only [entry]
    split
    · rfl
    · split <;> rfl

theorem entry_weighs (labels : Labels) (text : String) {a b : Nat} (ha : 0 < a)
    {found : Option Nat} (hfound : found = if 0 < b then some b else none) :
    Entry.Weighs a b (entry labels text a found) := by
  subst hfound
  by_cases hb : 0 < b
  · rw [if_pos hb]
    simp only [entry]
    split
    · constructor <;> simp <;> omega
    · split
      · constructor <;> simp <;> omega
      · constructor <;> simp <;> omega
  · rw [if_neg hb]
    constructor <;> simp [entry] <;> omega

theorem listed_memberEntries (labels : Labels) (text : σ → String) (reference candidate : List σ) :
    Listed text (fun s => Entry.Weighs (reference.count s) (candidate.count s)) reference
      (memberEntries labels text reference candidate) := by
  rw [Listed, memberEntries, Tally.entries_ofList, List.map_map, List.forall₂_map_right_iff,
    List.forall₂_same]
  intro s hs
  have hpos : 0 < reference.count s := List.count_pos_iff.2 (List.mem_eraseDups.1 hs)
  exact ⟨signature_entry _ _ _ _,
    entry_weighs labels _ hpos (Tally.get?_ofList_eq_count candidate s)⟩

theorem listed_missingEntries (labels : Labels) (className : String) (text : σ → String)
    (reference : List σ) :
    Listed text (fun s => Entry.Lacking (reference.count s)) reference
      (missingEntries labels className text reference) := by
  rw [Listed, missingEntries, Tally.entries_ofList, List.map_map, List.forall₂_map_right_iff,
    List.forall₂_same]
  exact fun s _ => ⟨rfl, rfl, rfl, rfl⟩

theorem missingNode_lacking (labels : Labels) (target : ClassRecord) :
    Node.Lacking target (missingNode labels target) where
  note := rfl
  verdict := rfl
  attributes := listed_missingEntries labels target.name _ _
  methods := listed_missingEntries labels target.name _ _

theorem classNode_weighs (labels : Labels) (target counterpart : ClassRecord) :
    Node.Weighs target counterpart (classNode labels target counterpart) := by
  obtain ⟨n, hn⟩ : ∃ n, n = classNode labels target counterpart := ⟨_, rfl⟩
  have hnote : n.note.isSome = true ↔ target.parent ≠ counterpart.parent := by
    rw [Option.isSome_iff_ne_none, hn]
    exact not_congr (inheritanceNote_eq_none_iff labels _ _)
  have hverdict : n.verdict = .differ ∨ n.verdict = .agree := by
    rw [hn, classNode]
    dsimp only
    split
    · exact Or.inl rfl
    · exact Or.inr rfl
  have hagree : n.verdict = .agree ↔ n.note = none ∧ ∀ e ∈ n.entries, e.severity = .ok := by
    simpa [Node.agrees, ← hn] using classNode_agrees_iff_clean labels target counterpart
  have hdiffer : n.verdict = .differ ↔ ¬ n.verdict = .agree := by
    rcases hverdict with h | h <;> simp [h]
  rw [← hn]
  refine ⟨hnote, ?_, hagree, ?_, ?_, ?_⟩
  · rw [hdiffer, hagree, not_and_or, Option.isSome_iff_ne_none]
    simp
  · rcases hverdict with h | h <;> simp [h]
  · rw [hn]
    exact listed_memberEntries labels _ _ _
  · rw [hn]
    exact listed_memberEntries labels _ _ _

end Comparison

theorem names_latestRecords (rs : List ClassRecord) :
    (latestRecords rs).map ClassRecord.name = (rs.map ClassRecord.name).eraseDups := by
  rw [← Pool.pool_eq_latestRecords, Pool.names_pool]

/-- The nodes of a comparison go with the distinct class names of the reference, in the order of
first occurrences; each holds what there is to say about the last record of its name. -/
theorem compare_contents (labels : Labels) (reference candidate : List ClassRecord) :
    ∃ targets : List ClassRecord,
      targets.map ClassRecord.name = (reference.map ClassRecord.name).eraseDups ∧
      (∀ target ∈ targets, Latest reference target) ∧
      List.Forall₂ (fun target n => n.className = target.name ∧
          (target.name ∉ classNames candidate → Node.Lacking target n) ∧
          ∀ counterpart, Latest candidate counterpart → counterpart.name = target.name →
            Node.Weighs target counterpart n)
        targets (compare labels reference candidate) := by
  refine ⟨latestRecords reference, names_latestRecords reference,
    fun target => mem_latestRecords.1, ?_⟩
  rw [compare_eq_map, List.forall₂_map_right_iff, List.forall₂_same]
  intro target _
  cases hlast : lastOf? candidate target.name with
  | none =>
    have hnode : Comparison.node labels candidate target = Comparison.missingNode labels target := by
      simp only [Comparison.node, hlast]
    rw [hnode]
    refine ⟨rfl, fun _ => Comparison.missingNode_lacking labels target, ?_⟩
    intro counterpart hlatest hname
    exact absurd (hname ▸ hlatest.name_mem) (lastOf?_eq_none_iff.1 hlast)
  | some found =>
    obtain ⟨hfound, hname⟩ := lastOf?_eq_some_iff.1 hlast
    have hnode : Comparison.node labels candidate target =
        Comparison.classNode labels target found := by
      simp only [Comparison.node, hlast]
    rw [hnode]
    refine ⟨rfl, fun hnot => absurd (hname ▸ hfound.name_mem) hnot, ?_⟩
    intro counterpart hlatest hsame
    rw [hlatest.eq_of_name hfound (hsame.trans hname.symm)]
    exact Comparison.classNode_weighs labels target found

/-- Two signatures with one text have an entry each. -/
example : ((compare {} [⟨"A", none, [], [⟨.default, "void", "f", [⟨"P<K,V>", "p"⟩]⟩,
    ⟨.default, "void", "g", [⟨"P<K", "p"⟩, ⟨"V>", "q"⟩]⟩]⟩] []).flatMap Node.methods).map
    Entry.signature = ["default|void|P<K,V>", "default|void|P<K,V>"] := by
  decide +kernel

end ClassShape
