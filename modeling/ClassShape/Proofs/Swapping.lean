import ClassShape.Proofs.Contents

/-! Comparing the other way round. Each run lists only what its own reference has, in an order of
its own, so the two are held together signature by signature: what one side has more of the other
has less of, and what is missing from one side is not listed by it. -/
namespace ClassShape
variable {σ : Type} [DecidableEq σ]

/-- The entry of a signature, among those that go with the distinct `signatures` in the order of
first occurrences. -/
def entryOf? (signatures : List σ) (entries : List Entry) (s : σ) : Option Entry :=
  (signatures.eraseDups.zip entries).lookup s

def Entry.Says (severity : Severity) (count candidateCount : Option Nat) (e : Entry) : Prop :=
  e.severity = severity ∧ e.count = count ∧ e.candidateCount = candidateCount

structure Entry.Mirrors (e e' : Entry) : Prop where
  low : ∀ a b, e.Says .countLow (some a) (some b) ↔ e'.Says .countHigh (some b) (some a)
  high : ∀ a b, e.Says .countHigh (some a) (some b) ↔ e'.Says .countLow (some b) (some a)
  ok : ∀ a, e.severity = .ok ∧ e.count = some a ↔ e'.severity = .ok ∧ e'.count = some a
  graded : e.severity = .countLow ∨ e.severity = .countHigh ∨ e.severity = .ok

structure Mirrored (text : σ → String) (xs ys : List σ) (entries entries' : List Entry) : Prop where
  shared : ∀ s ∈ xs, s ∈ ys → ∃ e e', entryOf? xs entries s = some e ∧
    entryOf? ys entries' s = some e' ∧ e.signature = text s ∧ e'.signature = text s ∧ e.Mirrors e'
  removed : ∀ s, (∃ e, entryOf? xs entries s = some e ∧ e.severity = .removed) ↔
    s ∈ xs ∧ entryOf? ys entries' s = none
  removed_back : ∀ s, (∃ e, entryOf? ys entries' s = some e ∧ e.severity = .removed) ↔
    s ∈ ys ∧ entryOf? xs entries s = none

theorem lookup_zip_of_forall₂ {R : σ → Entry → Prop} {ss : List σ} {es : List Entry}
    (h : List.Forall₂ R ss es) {s : σ} (hs : s ∈ ss) : ∃ e, (ss.zip es).lookup s = some e ∧ R s e := by
  induction h with
  | nil => simp at hs
  | @cons t e ts es hte _ ih =>
    by_cases hst : s = t
    · subst s
      exact ⟨e, by simp, hte⟩
    · obtain ⟨e', he', hR⟩ := ih (List.mem_of_ne_of_mem hst hs)
      exact ⟨e', by simpa [List.lookup_cons, beq_false_of_ne hst] using he', hR⟩

theorem entryOf?_eq_none_of_notMem {ss : List σ} {s : σ} (hs : s ∉ ss) (entries : List Entry) :
    entryOf? ss entries s = none := by
  refine List.lookup_eq_none_iff.2 fun p hp => bne_iff_ne.2 fun he => hs ?_
  exact he ▸ List.mem_eraseDups.1 (List.of_mem_zip hp).1

theorem Listed.exists_entryOf? {text : σ → String} {holds : σ → Entry → Prop} {ss : List σ}
    {entries : List Entry} (h : Listed text holds ss entries) {s : σ} (hs : s ∈ ss) :
    ∃ e, entryOf? ss entries s = some e ∧ e.signature = text s ∧ holds s e :=
  lookup_zip_of_forall₂ h (List.mem_eraseDups.2 hs)

theorem Listed.entryOf?_eq_none_iff {text : σ → String} {holds : σ → Entry → Prop} {ss : List σ}
    {entries : List Entry} (h : Listed text holds ss entries) {s : σ} :
    entryOf? ss entries s = none ↔ s ∉ ss := by
  refine ⟨fun hnone hs => ?_, fun hs => entryOf?_eq_none_of_notMem hs entries⟩
  obtain ⟨e, he, -⟩ := h.exists_entryOf? hs
  simp [hnone] at he

namespace Entry.Weighs
variable {a b : Nat} {e e' : Entry}

theorem severity_removed_iff (h : Weighs a b e) : e.severity = .removed ↔ b = 0 := by
  refine ⟨fun hremoved => ?_, fun hb => (h.removed.2 hb).1⟩
  by_contra hb
  by_cases hlt : a < b
  · simp [(h.high.2 hlt).1] at hremoved
  · by_cases heq : b = a
    · simp [(h.ok.2 heq).1] at hremoved
    · have hlow := h.low.2 ⟨Nat.pos_of_ne_zero hb, by omega⟩
      simp [hlow.1] at hremoved

/-- With the counts exchanged, less is more and equal is equal. -/
theorem mirrors (h : Weighs a b e) (h' : Weighs b a e') (ha : 0 < a) (hb : 0 < b) :
    e.Mirrors e' := by
  by_cases hlt : a < b
  · obtain ⟨hs, hc, hd⟩ := h.high.2 hlt
    obtain ⟨hs', hc', hd'⟩ := h'.low.2 ⟨ha, hlt⟩
    constructor <;> simp [Says, hs, hc, hd, hs', hc', hd', and_comm]
  · by_cases heq : b = a
    · obtain ⟨hs, hc, hd⟩ := h.ok.2 heq
      obtain ⟨hs', hc', hd'⟩ := h'.ok.2 heq.symm
      constructor <;> simp [Says, hs, hc, hd, hs', hc', hd', heq]
    · have hgt : b < a := by omega
      obtain ⟨hs, hc, hd⟩ := h.low.2 ⟨hb, hgt⟩
      obtain ⟨hs', hc', hd'⟩ := h'.high.2 hgt
      constructor <;> simp [Says, hs, hc, hd, hs', hc', hd', and_comm]

end Entry.Weighs

theorem Listed.exists_removed_iff {text : σ → String} {xs ys : List σ} {entries : List Entry}
    (h : Listed text (fun s => Entry.Weighs (xs.count s) (ys.count s)) xs entries) (s : σ) :
    (∃ e, entryOf? xs entries s = some e ∧ e.severity = .removed) ↔ s ∈ xs ∧ s ∉ ys := by
  constructor
  · intro hentry
    obtain ⟨e, he, hremoved⟩ := hentry
    have hs : s ∈ xs := by
      by_contra hs
      simp [h.entryOf?_eq_none_iff.2 hs] at he
    obtain ⟨e', he', -, hweighs⟩ := h.exists_entryOf? hs
    obtain rfl : e' = e := Option.some.inj (he'.symm.trans he)
    exact ⟨hs, List.count_eq_zero.1 (hweighs.severity_removed_iff.1 hremoved)⟩
  · intro hs
    obtain ⟨e, he, -, hweighs⟩ := h.exists_entryOf? hs.1
    exact ⟨e, he, hweighs.severity_removed_iff.2 (List.count_eq_zero.2 hs.2)⟩

theorem Listed.mirrored {text : σ → String} {xs ys : List σ} {entries entries' : List Entry}
    (h : Listed text (fun s => Entry.Weighs (xs.count s) (ys.count s)) xs entries)
    (h' : Listed text (fun s => Entry.Weighs (ys.count s) (xs.count s)) ys entries') :
    Mirrored text xs ys entries entries' where
  shared := by
    intro s hx hy
    obtain ⟨e, he, htext, hweighs⟩ := h.exists_entryOf? hx
    obtain ⟨e', he', htext', hweighs'⟩ := h'.exists_entryOf? hy
    exact ⟨e, e', he, he', htext, htext',
      hweighs.mirrors hweighs' (List.count_pos_iff.2 hx) (List.count_pos_iff.2 hy)⟩
  removed := by
    intro s
    rw [h.exists_removed_iff, h'.entryOf?_eq_none_iff]
  removed_back := by
    intro s
    rw [h'.exists_removed_iff, h.entryOf?_eq_none_iff]

namespace Comparison

theorem className_node (labels : Labels) (candidate : List ClassRecord) (target : ClassRecord) :
    (node labels candidate target).className = target.name := by
  unfold node
  split <;> rfl

theorem node_of_latest (labels : Labels) {candidate : List ClassRecord} {target r : ClassRecord}
    (hr : Latest candidate r) (hname : r.name = target.name) :
    node labels candidate target = classNode labels target r := by
  simp only [node, lastOf?_eq_some_iff.2 ⟨hr, hname⟩]

/-- A class name of the reference has one node. -/
theorem mem_compare_of_latest (labels : Labels) {reference : List ClassRecord}
    (candidate : List ClassRecord) {target : ClassRecord} (ht : Latest reference target) (n : Node) :
    n ∈ compare labels reference candidate ∧ n.className = target.name ↔
      n = node labels candidate target := by
  rw [mem_compare]
  constructor
  · intro hn
    obtain ⟨⟨other, hother, rfl⟩, hname⟩ := hn
    rw [className_node] at hname
    rw [hother.eq_of_name ht hname]
  · intro hn
    exact ⟨⟨target, ht, hn.symm⟩, hn ▸ className_node labels candidate target⟩

theorem countNote_swap (labels labels' : Labels) (p q a b : Nat) :
    (∃ e, countNote labels p q = some e ∧ e.Says .countLow (some a) (some b)) ↔
      ∃ e, countNote labels' q p = some e ∧ e.Says .countHigh (some b) (some a) := by
  by_cases heq : p = q
  · simp [countNote, heq]
  · by_cases hlt : p < q
    · simp [countNote, Entry.Says, heq, Ne.symm heq, hlt, hlt.le]
    · have hgt : q < p := by omega
      simp [countNote, Entry.Says, heq, Ne.symm heq, hgt, hgt.le, and_comm]

end Comparison

/-- With the sides exchanged, and under any labels, a class of both sides has a note in both runs or
in none, its signatures have entries that mirror each other, and the notes on the numbers of classes
do. -/
theorem compare_swapped (labels labels' : Labels) (xs ys : List ClassRecord) :
    (∀ r s, Latest xs r → Latest ys s → r.name = s.name →
      ∃ n n', (∀ m, m ∈ compare labels xs ys ∧ m.className = r.name ↔ m = n) ∧
        (∀ m, m ∈ compare labels' ys xs ∧ m.className = s.name ↔ m = n') ∧
        (n.note.isSome = true ↔ n'.note.isSome = true) ∧
        Mirrored AttributeSignature.text r.attributeSignatures s.attributeSignatures n.attributes
          n'.attributes ∧
        Mirrored MethodSignature.text r.methodSignatures s.methodSignatures n.methods
          n'.methods) ∧
    (∀ p q, (∃ e, (compareReport labels xs ys).countNote = some e ∧
        e.Says .countLow (some p) (some q)) ↔
      ∃ e, (compareReport labels' ys xs).countNote = some e ∧
        e.Says .countHigh (some q) (some p)) ∧
    ((compareReport labels xs ys).countNote = none ↔
      (compareReport labels' ys xs).countNote = none) := by
  refine ⟨?_, fun p q => Comparison.countNote_swap labels labels' _ _ p q, ?_⟩
  · intro r s hr hs hname
    have there := Comparison.classNode_weighs labels r s
    have back := Comparison.classNode_weighs labels' s r
    refine ⟨_, _, Comparison.mem_compare_of_latest labels ys hr,
      Comparison.mem_compare_of_latest labels' xs hs, ?_⟩
    rw [Comparison.node_of_latest labels hs hname.symm, Comparison.node_of_latest labels' hr hname]
    exact ⟨by rw [there.note, back.note, ne_comm], there.attributes.mirrored back.attributes,
      there.methods.mirrored back.methods⟩
  · simp only [compareReport, Comparison.countNote_eq_none_iff]
    exact eq_comm

/-- Two signatures of both sides and one of each, listed in different orders. -/
example :
    let r : ClassRecord := ⟨"A", none, [⟨.pub, "int", "a"⟩, ⟨.priv, "long", "b"⟩,
      ⟨.pub, "int", "c"⟩, ⟨.pub, "char", "d"⟩], []⟩
    let s : ClassRecord := ⟨"A", none, [⟨.pub, "byte", "e"⟩, ⟨.priv, "long", "f"⟩,
      ⟨.pub, "int", "g"⟩], []⟩
    ((compare {} [r] [s]).flatMap Node.attributes).map Entry.severity = [.countLow, .ok, .removed] ∧
    ((compare {} [s] [r]).flatMap Node.attributes).map Entry.severity =
      [.removed, .ok, .countHigh] := by
  decide +kernel

end ClassShape
