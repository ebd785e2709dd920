import ClassShape.Proofs.Conformance
import Mathlib.Logic.Relation
import Mathlib.Tactic.MkIffOfInductiveProp

/-! What a comparison tells about the candidate: which classes of the reference it has, their
parents, and how often each signature of the reference occurs in them. All of this can be read off
the nodes, and nothing else can. -/
namespace ClassShape

@[mk_iff]
structure Alike (target r s : ClassRecord) : Prop where
  parent : r.parent = s.parent
  attributes : ∀ sig ∈ target.attributeSignatures,
    r.attributeSignatures.count sig = s.attributeSignatures.count sig
  methods : ∀ sig ∈ target.methodSignatures,
    r.methodSignatures.count sig = s.methodSignatures.count sig

/-- Both candidates have a class of the name of `target`, and these look the same from there, or
neither has one. -/
def SameView (target : ClassRecord) (xs ys : List ClassRecord) : Prop :=
  (target.name ∈ classNames xs ↔ target.name ∈ classNames ys) ∧
    ∀ r s, Latest xs r → Latest ys s → r.name = target.name → s.name = target.name →
      Alike target r s

theorem Alike.refl (target r : ClassRecord) : Alike target r r :=
  ⟨rfl, fun _ _ => rfl, fun _ _ => rfl⟩

namespace Comparison
variable {σ : Type} [DecidableEq σ]

theorem entry_eq_iff (labels : Labels) (text : String) (count : Nat) (found found' : Option Nat) :
    entry labels text count found = entry labels text count found' ↔ found = found' := by
  refine ⟨fun h => ?_, fun h => h ▸ rfl⟩
  cases found with
  | none =>
    cases found' with
    | none => rfl
    | some n => simp only [entry] at h; grind
  | some m =>
    cases found' with
    | none => simp only [entry] at h; grind
    | some n => simp only [entry] at h; grind

theorem get?_ofList_eq_iff (xs ys : List σ) (a : σ) :
    (Tally.ofList xs).get? a = (Tally.ofList ys).get? a ↔ xs.count a = ys.count a := by
  rw [Tally.get?_ofList_eq_count, Tally.get?_ofList_eq_count]
  split
  · split
    · simp
    · simp; omega
  · split
    · simp; omega
    · simp; omega

theorem memberEntries_eq_iff (labels : Labels) (text : σ → String) (reference xs ys : List σ) :
    memberEntries labels text reference xs = memberEntries labels text reference ys ↔
      ∀ s ∈ reference, xs.count s = ys.count s := by
  simp only [memberEntries, List.map_inj_left, entry_eq_iff, get?_ofList_eq_iff]
  constructor
  · intro h s hs
    exact h (s, _) (Tally.mem_entries_ofList.2 ⟨hs, rfl⟩)
  · intro h e he
    exact h e.1 (Tally.mem_entries_ofList.1 he).1

def parentClause : Option String → String
  | none => "didn't extend"
  | some parent => "extends '" ++ parent ++ "'"

theorem parentClause_injective : Function.Injective parentClause := by
  intro p q h
  cases p with
  | none =>
    cases q with
    | none => rfl
    | some b => simpa [parentClause] using congrArg (fun s => s.toList.head?) h
  | some a =>
    cases q with
    | none => simpa [parentClause] using congrArg (fun s => s.toList.head?) h
    | some b => simpa [parentClause] using h

theorem inheritanceNote_of_ne (labels : Labels) {p q : Option String} (h : p ≠ q) :
    inheritanceNote labels p q =
      some ⟨labels.reference ++ " " ++ parentClause p ++ " but " ++ labels.candidate ++ " " ++
        parentClause q, .removed⟩ := by
  have hjoin : ∀ s : String, toString s = s := fun _ => rfl
  cases p with
  | none =>
    cases q with
    | none => exact absurd rfl h
    | some b => simp [inheritanceNote, parentClause, hjoin, ← String.toList_inj]
  | some a =>
    cases q with
    | none => simp [inheritanceNote, parentClause, hjoin, ← String.toList_inj]
    | some b =>
      have hab : a ≠ b := fun he => h (congrArg some he)
      simp [inheritanceNote, parentClause, hjoin, hab, ← String.toList_inj]

/-- Beside a given parent in the reference, the note determines the parent in the candidate. -/
theorem inheritanceNote_eq_iff (labels : Labels) (parent p q : Option String) :
    inheritanceNote labels parent p = inheritanceNote labels parent q ↔ p = q := by
  refine ⟨fun h => ?_, fun h => h ▸ rfl⟩
  by_cases hp : parent = p
  · rw [(inheritanceNote_eq_none_iff labels parent p).2 hp, eq_comm,
      inheritanceNote_eq_none_iff] at h
    exact hp.symm.trans h
  · by_cases hq : parent = q
    · rw [(inheritanceNote_eq_none_iff labels parent q).2 hq, inheritanceNote_eq_none_iff] at h
      exact absurd h hp
    · rw [inheritanceNote_of_ne labels hp, inheritanceNote_of_ne labels hq] at h
      have htext := congrArg InheritanceNote.message (Option.some.inj h)
      exact parentClause_injective ((String.append_right_inj _).1 htext)

theorem classNode_eq_iff (labels : Labels) (target r s : ClassRecord) :
    classNode labels target r = classNode labels target s ↔ Alike target r s := by
  constructor
  · intro h
    refine ⟨?_, ?_, ?_⟩
    · exact (inheritanceNote_eq_iff labels target.parent _ _).1 (congrArg Node.note h)
    · exact (memberEntries_eq_iff labels AttributeSignature.text _ _ _).1
        (congrArg Node.attributes h)
    · exact (memberEntries_eq_iff labels MethodSignature.text _ _ _).1 (congrArg Node.methods h)
  · intro h
    have hattributes := (memberEntries_eq_iff labels AttributeSignature.text
      target.attributeSignatures _ _).2 h.attributes
    have hmethods := (memberEntries_eq_iff labels MethodSignature.text
      target.methodSignatures _ _).2 h.methods
    unfold ClassRecord.attributeSignatures at hattributes
    unfold ClassRecord.methodSignatures at hmethods
    simp only [classNode, h.parent, hattributes, hmethods]

theorem entry_severity_ne_added (labels : Labels) (text : String) (count : Nat)
    (found : Option Nat) : (entry labels text count found).severity ≠ .added := by
  cases found with
  | none => simp [entry]
  | some n =>
    simp only [entry]
    split
    · simp
    · split <;> simp

theorem memberEntries_ne_added (labels : Labels) (text : σ → String)
    (reference candidate : List σ) :
    ∀ e ∈ memberEntries labels text reference candidate, e.severity ≠ .added := by
  intro e he
  obtain ⟨⟨s, count⟩, -, rfl⟩ := List.mem_map.1 he
  exact entry_severity_ne_added labels (text s) count _

theorem missingEntries_added (labels : Labels) (className : String) (text : σ → String)
    (reference : List σ) :
    ∀ e ∈ missingEntries labels className text reference, e.severity = .added := by
  intro e he
  obtain ⟨⟨s, count⟩, -, rfl⟩ := List.mem_map.1 he
  rfl

/-- A class that is there never looks like one that is missing: no entry of its node is an
addition, and with no entry at all a note is what makes the node differ. -/
theorem classNode_ne_missingNode (labels : Labels) (target r : ClassRecord) :
    classNode labels target r ≠ missingNode labels target := by
  intro h
  have hadded : ∀ e ∈ (classNode labels target r).entries, e.severity = .added := by
    rw [h]
    exact List.forall_mem_append.2
      ⟨missingEntries_added labels _ _ _, missingEntries_added labels _ _ _⟩
  have hother : ∀ e ∈ (classNode labels target r).entries, e.severity ≠ .added :=
    List.forall_mem_append.2
      ⟨memberEntries_ne_added labels _ _ _, memberEntries_ne_added labels _ _ _⟩
  have hagrees : (classNode labels target r).agrees = true := by
    refine (classNode_agrees_iff_clean labels target r).2 ⟨?_, ?_⟩
    · rw [h]
      rfl
    · exact fun e he => absurd (hadded e he) (hother e he)
  rw [h] at hagrees
  simp [Node.agrees, missingNode] at hagrees

end Comparison

/-- The same said of the records that stand for the name. -/
theorem sameView_iff (target : ClassRecord) (xs ys : List ClassRecord) :
    SameView target xs ys ↔
      Option.Rel (Alike target) (lastOf? xs target.name) (lastOf? ys target.name) := by
  constructor
  · intro hview
    obtain ⟨hnames, halike⟩ := hview
    cases hx : lastOf? xs target.name with
    | none =>
      rw [lastOf?_eq_none_iff] at hx
      rw [lastOf?_eq_none_iff.2 fun h => hx (hnames.2 h)]
      exact .none
    | some r =>
      obtain ⟨hr, hrname⟩ := lastOf?_eq_some_iff.1 hx
      obtain ⟨s, hs, hsname⟩ := exists_latest (hnames.1 (hrname ▸ hr.name_mem))
      rw [lastOf?_eq_some_iff.2 ⟨hs, hsname⟩]
      exact .some (halike r s hr hs hrname hsname)
  · intro hrel
    constructor
    · rw [← not_iff_not, ← lastOf?_eq_none_iff, ← lastOf?_eq_none_iff]
      generalize lastOf? xs target.name = x at hrel
      generalize lastOf? ys target.name = y at hrel
      cases hrel with
      | none => rfl
      | some _ => simp
    · intro r s hr hs hrname hsname
      rw [lastOf?_eq_some_iff.2 ⟨hr, hrname⟩, lastOf?_eq_some_iff.2 ⟨hs, hsname⟩] at hrel
      cases hrel with
      | some h => exact h

namespace Comparison

theorem node_eq_iff (labels : Labels) (target : ClassRecord) (xs ys : List ClassRecord) :
    node labels xs target = node labels ys target ↔ SameView target xs ys := by
  rw [sameView_iff, node, node]
  cases lastOf? xs target.name with
  | none =>
    cases lastOf? ys target.name with
    | none => exact iff_of_true rfl .none
    | some s =>
      refine iff_of_false (Ne.symm (classNode_ne_missingNode labels target s)) ?_
      intro h
      cases h
  | some r =>
    cases lastOf? ys target.name with
    | none =>
      refine iff_of_false (classNode_ne_missingNode labels target r) ?_
      intro h
      cases h
    | some s =>
      rw [classNode_eq_iff]
      exact ⟨.some, fun h => by cases h with | some h => exact h⟩

end Comparison

def latestRecords (xs : List ClassRecord) : List ClassRecord :=
  (distinctNames xs).filterMap (lastOf? xs)

theorem mem_latestRecords {xs : List ClassRecord} {r : ClassRecord} :
    r ∈ latestRecords xs ↔ Latest xs r := by
  rw [latestRecords, List.mem_filterMap]
  constructor
  · intro h
    obtain ⟨name, -, hr⟩ := h
    exact (lastOf?_eq_some_iff.1 hr).1
  · intro h
    exact ⟨r.name, mem_distinctNames.2 h.name_mem, lastOf?_eq_some_iff.2 ⟨h, rfl⟩⟩

theorem compare_eq_map (labels : Labels) (reference candidate : List ClassRecord) :
    compare labels reference candidate =
      (latestRecords reference).map (Comparison.node labels candidate) := by
  rw [compare, latestRecords, List.map_filterMap]
  refine List.filterMap_congr fun name _ => ?_
  cases hr : lastOf? reference name with
  | none => rfl
  | some target =>
    obtain rfl := (lastOf?_eq_some_iff.1 hr).2
    rfl

theorem compare_eq_iff (labels : Labels) (reference xs ys : List ClassRecord) :
    compare labels reference xs = compare labels reference ys ↔
      ∀ target, Latest reference target → SameView target xs ys := by
  simp only [compare_eq_map, List.map_inj_left, mem_latestRecords, Comparison.node_eq_iff]

/-- The same class with its members in any order, they and their parameters under any names. -/
structure Restated (r s : ClassRecord) : Prop where
  name : r.name = s.name
  parent : r.parent = s.parent
  attributes : r.attributeSignatures.Perm s.attributeSignatures
  methods : r.methodSignatures.Perm s.methodSignatures

structure Renamed (r s : ClassRecord) : Prop where
  name : r.name = s.name
  parent : r.parent = s.parent
  attributes : r.attributeSignatures = s.attributeSignatures
  methods : r.methodSignatures = s.methodSignatures

def ClassRecord.extend (r : ClassRecord) (as : List Attribute) (ms : List Method) : ClassRecord :=
  { r with attributes := r.attributes ++ as, methods := r.methods ++ ms }

/-- One change of a candidate that concerns nothing the reference has. -/
inductive Edit (reference : List ClassRecord) : List ClassRecord → List ClassRecord → Prop where
  | restate {before after : List ClassRecord} {r s : ClassRecord} (h : Restated r s) :
    Edit reference (before ++ r :: after) (before ++ s :: after)
  | reorder {before after xs ys : List ClassRecord} (h : xs.Perm ys)
    (hnames : (xs.map ClassRecord.name).Nodup) :
    Edit reference (before ++ (xs ++ after)) (before ++ (ys ++ after))
  | addClass {before after : List ClassRecord} {r : ClassRecord}
    (h : r.name ∉ classNames reference) :
    Edit reference (before ++ after) (before ++ r :: after)
  | addMembers {before after : List ClassRecord} {r : ClassRecord} {as : List Attribute}
    {ms : List Method}
    (ha : ∀ target, Latest reference target → target.name = r.name →
      ∀ a ∈ as, a.signature ∉ target.attributeSignatures)
    (hm : ∀ target, Latest reference target → target.name = r.name →
      ∀ m ∈ ms, m.signature ∉ target.methodSignatures) :
    Edit reference (before ++ r :: after) (before ++ r.extend as ms :: after)

theorem Restated.alike {r s : ClassRecord} (h : Restated r s) (target : ClassRecord) :
    Alike target r s :=
  ⟨h.parent, fun sig _ => h.attributes.count_eq sig, fun sig _ => h.methods.count_eq sig⟩

theorem Alike.extend {target r : ClassRecord} {as : List Attribute} {ms : List Method}
    (ha : ∀ a ∈ as, a.signature ∉ target.attributeSignatures)
    (hm : ∀ m ∈ ms, m.signature ∉ target.methodSignatures) :
    Alike target r (r.extend as ms) := by
  refine ⟨rfl, ?_, ?_⟩
  · intro sig hsig
    have hnot : sig ∉ as.map Attribute.signature := by
      intro hmem
      obtain ⟨a, has, rfl⟩ := List.mem_map.1 hmem
      exact ha a has hsig
    simp [ClassRecord.attributeSignatures, ClassRecord.extend, List.count_eq_zero_of_not_mem hnot]
  · intro sig hsig
    have hnot : sig ∉ ms.map Method.signature := by
      intro hmem
      obtain ⟨m, hms, rfl⟩ := List.mem_map.1 hmem
      exact hm m hms hsig
    simp [ClassRecord.methodSignatures, ClassRecord.extend, List.count_eq_zero_of_not_mem hnot]

namespace SameView
variable {target r s : ClassRecord} {before after xs ys : List ClassRecord}

theorem of_lastOf?_eq (h : lastOf? xs target.name = lastOf? ys target.name) :
    SameView target xs ys := by
  rw [sameView_iff, h]
  cases lastOf? ys target.name with
  | none => exact .none
  | some r => exact .some (Alike.refl target r)

/-- One record put in the place of another of its name. -/
theorem replace (hname : r.name = s.name) (h : r.name = target.name → Alike target r s) :
    SameView target (before ++ r :: after) (before ++ s :: after) := by
  by_cases hr : r.name = target.name
  · have hs := hname.symm.trans hr
    rw [sameView_iff, lastOf?_append, lastOf?_append, lastOf?_cons, lastOf?_cons, if_pos hr,
      if_pos hs]
    cases lastOf? after target.name with
    | none => exact .some (h hr)
    | some r => exact .some (Alike.refl target r)
  · have hs : s.name ≠ target.name := fun he => hr (hname.trans he)
    apply of_lastOf?_eq
    rw [lastOf?_append, lastOf?_append, lastOf?_cons, lastOf?_cons, if_neg hr, if_neg hs]

end SameView

/-- Where all names are distinct, a record stands for its name wherever it is. -/
theorem latest_iff_mem {xs : List ClassRecord} (h : (xs.map ClassRecord.name).Nodup)
    {r : ClassRecord} : Latest xs r ↔ r ∈ xs := by
  constructor
  · intro hlatest
    obtain ⟨before, after, rfl, -⟩ := hlatest
    simp
  · intro hr
    obtain ⟨before, after, rfl⟩ := List.append_of_mem hr
    refine ⟨before, after, rfl, fun c hc he => ?_⟩
    rw [List.map_append, List.map_cons, List.nodup_append] at h
    exact (List.nodup_cons.1 h.2.1).1 (he ▸ List.mem_map_of_mem hc)

theorem lastOf?_perm {xs ys : List ClassRecord} (h : xs.Perm ys)
    (hnames : (xs.map ClassRecord.name).Nodup) (name : String) :
    lastOf? xs name = lastOf? ys name := by
  have hnames' : (ys.map ClassRecord.name).Nodup := (h.map _).nodup_iff.1 hnames
  ext r
  rw [lastOf?_eq_some_iff, lastOf?_eq_some_iff, latest_iff_mem hnames, latest_iff_mem hnames',
    h.mem_iff]

/-- No class of the reference sees an edit. -/
theorem Edit.sameView {reference xs ys : List ClassRecord} (h : Edit reference xs ys)
    {target : ClassRecord} (ht : Latest reference target) : SameView target xs ys := by
  cases h with
  | restate h => exact SameView.replace h.name fun _ => h.alike target
  | reorder h hnames =>
    apply SameView.of_lastOf?_eq
    simp only [lastOf?_append, lastOf?_perm h hnames]
  | @addClass before after r h =>
    have hr : r.name ≠ target.name := fun he => h (he ▸ ht.name_mem)
    apply SameView.of_lastOf?_eq
    simp [lastOf?_append, lastOf?_cons, hr]
  | addMembers ha hm =>
    exact SameView.replace rfl fun he => Alike.extend (ha target ht he.symm) (hm target ht he.symm)

theorem compare_edit (labels : Labels) {reference xs ys : List ClassRecord}
    (h : Relation.EqvGen (Edit reference) xs ys) :
    compare labels reference xs = compare labels reference ys := by
  induction h with
  | rel xs ys h => exact (compare_eq_iff labels reference xs ys).2 fun _ => h.sameView
  | refl => rfl
  | symm xs ys _ ih => exact ih.symm
  | trans xs ys zs _ _ ihxy ihyz => exact ihxy.trans ihyz

theorem Renamed.node_eq {r s : ClassRecord} (h : Renamed r s) (labels : Labels)
    (candidate : List ClassRecord) :
    Comparison.node labels candidate r = Comparison.node labels candidate s := by
  have hattributes : r.attributes.map Attribute.signature = s.attributes.map Attribute.signature :=
    h.attributes
  have hmethods : r.methods.map Method.signature = s.methods.map Method.signature := h.methods
  simp only [Comparison.node, Comparison.classNode, Comparison.missingNode, h.name, h.parent,
    hattributes, hmethods]

theorem distinctNames_renamed {xs ys : List ClassRecord} (h : List.Forall₂ Renamed xs ys) :
    distinctNames xs = distinctNames ys := by
  induction h with
  | nil => rfl
  | cons hrs _ ih => simp only [distinctNames, hrs.name, ih]

theorem lastOf?_renamed {xs ys : List ClassRecord} (h : List.Forall₂ Renamed xs ys)
    (name : String) : Option.Rel Renamed (lastOf? xs name) (lastOf? ys name) := by
  induction h with
  | nil => exact .none
  | @cons r s xs ys hrs _ ih =>
    rw [lastOf?_cons, lastOf?_cons, hrs.name]
    generalize lastOf? xs name = x at ih ⊢
    generalize lastOf? ys name = y at ih ⊢
    cases ih with
    | none =>
      split
      · exact .some hrs
      · exact .none
    | some h => exact .some h

theorem compare_renamed (labels : Labels) {xs ys : List ClassRecord}
    (h : List.Forall₂ Renamed xs ys) (candidate : List ClassRecord) :
    compare labels xs candidate = compare labels ys candidate := by
  rw [compare_eq_map, compare_eq_map, latestRecords, latestRecords, List.map_filterMap,
    List.map_filterMap, distinctNames_renamed h]
  refine List.filterMap_congr fun name _ => ?_
  have hrel := lastOf?_renamed h name
  generalize lastOf? xs name = x at hrel ⊢
  generalize lastOf? ys name = y at hrel ⊢
  cases hrel with
  | none => rfl
  | some hrs => exact congrArg some (hrs.node_eq labels candidate)

/-- Two candidates give the same nodes exactly if every class of the reference sees the same in
both. So no edit of the candidate changes a node, and no renaming in the reference does. -/
theorem compare_discloses (labels : Labels) (reference : List ClassRecord) :
    (∀ xs ys, compare labels reference xs = compare labels reference ys ↔
      ∀ target, Latest reference target →
        (target.name ∈ classNames xs ↔ target.name ∈ classNames ys) ∧
        ∀ r s, Latest xs r → Latest ys s → r.name = target.name → s.name = target.name →
          r.parent = s.parent ∧
          (∀ sig ∈ target.attributeSignatures,
            r.attributeSignatures.count sig = s.attributeSignatures.count sig) ∧
          ∀ sig ∈ target.methodSignatures,
            r.methodSignatures.count sig = s.methodSignatures.count sig) ∧
    (∀ xs ys, Relation.EqvGen (Edit reference) xs ys →
      compare labels reference xs = compare labels reference ys) ∧
    (∀ renamed, List.Forall₂ Renamed reference renamed →
      ∀ xs, compare labels renamed xs = compare labels reference xs) := by
  refine ⟨?_, fun xs ys h => compare_edit labels h, ?_⟩
  · intro xs ys
    simp only [compare_eq_iff, SameView, alike_iff]
  · intro renamed h xs
    exact (compare_renamed labels h xs).symm

/-- A class of the reference is found under other members' names, behind a class of its own, and
with a field that the reference does not have. -/
theorem compare_edited :
    let reference : List ClassRecord := [⟨"A", none, [⟨.priv, "int", "x"⟩], []⟩]
    let first : ClassRecord := ⟨"A", none, [⟨.priv, "int", "y"⟩], []⟩
    let other : ClassRecord := ⟨"B", some "A", [], []⟩
    Relation.EqvGen (Edit reference) [first, other]
      [other, first.extend [⟨.pub, "String", "s"⟩] []] ∧
    compare {} reference [first, other] =
      compare {} reference [other, first.extend [⟨.pub, "String", "s"⟩] []] := by
  intro reference first other
  have hswap : Edit reference ([] ++ ([first, other] ++ [])) ([] ++ ([other, first] ++ [])) :=
    .reorder (List.Perm.swap other first []) (by decide)
  have hextend : Edit reference ([other] ++ [first])
      ([other] ++ [first.extend [⟨.pub, "String", "s"⟩] []]) := by
    refine .addMembers (fun target ht _ => ?_) (by simp)
    obtain rfl : target = _ := List.mem_singleton.1 ((latest_iff_mem (by decide)).1 ht)
    decide
  have hedit := Relation.EqvGen.trans _ _ _ (.rel _ _ hswap) (.rel _ _ hextend)
  exact ⟨hedit, (compare_discloses {} reference).2.1 _ _ hedit⟩

def pairSetter (parameters : List Parameter) : ClassRecord :=
  ⟨"A", none, [], [⟨.default, "void", "set", parameters⟩]⟩

/-- The order of parameters is part of a signature: with the parameters of the candidate's only
method the other way round, the method counts as missing. -/
theorem compare_reordered_parameters :
    [(⟨"int", "x"⟩ : Parameter), ⟨"String", "y"⟩].Perm [⟨"String", "y"⟩, ⟨"int", "x"⟩] ∧
    compare {} [pairSetter [⟨"int", "x"⟩, ⟨"String", "y"⟩]]
        [pairSetter [⟨"int", "x"⟩, ⟨"String", "y"⟩]] ≠
      compare {} [pairSetter [⟨"int", "x"⟩, ⟨"String", "y"⟩]]
        [pairSetter [⟨"String", "y"⟩, ⟨"int", "x"⟩]] := by
  refine ⟨List.Perm.swap _ _ _, fun h => ?_⟩
  have hmethods := congrArg (fun nodes => nodes.flatMap fun n => n.methods.map Entry.severity) h
  revert hmethods
  decide

end ClassShape
