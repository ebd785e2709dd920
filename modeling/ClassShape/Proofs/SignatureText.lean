import ClassShape.Proofs.Canonical.Parameters
import ClassShape.Proofs.CleanRecords
import ClassShape.Signature

/-! The texts of signatures. A modifier and a return type end at the first bar behind them, so only
the types of parameters can run into one another; where each of them keeps its commas inside
brackets, the joined text is cut back into them and says all there is in the signature. -/
namespace ClassShape

theorem Text.append_bar_inj {a b : List Char} (ha : '|' ∉ a) (hb : '|' ∉ b) (cs ds : List Char) :
    a ++ '|' :: cs = b ++ '|' :: ds ↔ a = b ∧ cs = ds := by
  induction a generalizing b with
  | nil =>
    cases b with
    | nil => simp
    | cons d b =>
      have hd : '|' ≠ d := fun he => hb (he ▸ List.mem_cons_self)
      simp [hd]
  | cons c a ih =>
    have hc : c ≠ '|' := fun he => ha (by simp [he])
    have ha' : '|' ∉ a := fun h => ha (List.mem_cons_of_mem c h)
    cases b with
    | nil => simp [hc]
    | cons d b =>
      have hb' : '|' ∉ b := fun h => hb (List.mem_cons_of_mem d h)
      simp [ih ha' hb', and_assoc]

theorem Modifier.bar_notMem_name (m : Modifier) : '|' ∉ m.name.toList := by
  cases m <;> decide

theorem Modifier.name_inj {m n : Modifier} : m.name = n.name ↔ m = n := by
  cases m <;> cases n <;> decide

/-- The type of an attribute can be any text: it is all that follows the first bar. -/
theorem AttributeSignature.text_inj {s t : AttributeSignature} : s.text = t.text ↔ s = t := by
  obtain ⟨m, type⟩ := s
  obtain ⟨n, type'⟩ := t
  have hcut := Text.append_bar_inj m.bar_notMem_name n.bar_notMem_name type.toList type'.toList
  simp only [String.toList_inj, Modifier.name_inj] at hcut
  rw [mk.injEq, ← hcut, ← String.toList_inj]
  simp [text]

/-- The text of a type that does not run into those beside it: it is not empty, as many brackets
are opened as closed, and each comma stands inside them. A bracket may be closed before its time. -/
@[mk_iff]
structure SelfContained (type : String) : Prop where
  nonempty : type ≠ ""
  balanced : type.toList.count '<' = type.toList.count '>'
  commas : CommasEnclosed type

instance (type : String) : Decidable (SelfContained type) :=
  decidable_of_iff' _ (selfContained_iff type)

namespace Parameter

/-- Types that keep their commas inside brackets are what their joined text is cut into. -/
theorem fragments_joined {types : List String} (hne : types ≠ [])
    (h : ∀ type ∈ types, SelfContained type) :
    fragments (",".intercalate types).toList = types.map String.toList := by
  induction types with
  | nil => exact absurd rfl hne
  | cons type types ih =>
    have htype := h type (by simp)
    have henclosed := commasEnclosed_iff.1 htype.commas
    have hnet : net type.toList = 0 := by
      have hbalanced := htype.balanced
      rw [net_eq_count]
      omega
    cases types with
    | nil => simpa using fragments_enclosed henclosed
    | cons other types =>
      have hrest := ih (by simp) fun t ht => h t (List.mem_cons_of_mem type ht)
      have hsplit : (",".intercalate (type :: other :: types)).toList =
          type.toList ++ ',' :: (",".intercalate (other :: types)).toList := by
        simp
      rw [hsplit, fragments_comma henclosed hnet, hrest]
      rfl

theorem joined_ne_empty {types : List String} (hne : types ≠ [])
    (h : ∀ type ∈ types, SelfContained type) : ",".intercalate types ≠ "" := by
  cases types with
  | nil => exact absurd rfl hne
  | cons type types =>
    cases types with
    | nil => simpa using (h type (by simp)).nonempty
    | cons other types =>
      intro he
      simpa using congrArg String.toList he

theorem joined_inj {types others : List String} (ht : ∀ type ∈ types, SelfContained type)
    (ho : ∀ type ∈ others, SelfContained type) :
    ",".intercalate types = ",".intercalate others ↔ types = others := by
  refine ⟨fun hjoined => ?_, fun he => he ▸ rfl⟩
  by_cases hne : types = []
  · -- Nothing is joined to nothing, and no self-contained types are.
    by_contra hother
    rw [hne, String.intercalate_nil] at hjoined
    exact joined_ne_empty (fun he => hother (hne.trans he.symm)) ho hjoined.symm
  · have hother : others ≠ [] := by
      intro he
      rw [he, String.intercalate_nil] at hjoined
      exact joined_ne_empty hne ht hjoined
    have hcut := fragments_joined hne ht
    rw [hjoined, fragments_joined hother ho] at hcut
    exact (List.map_injective_iff.2 (fun _ _ => String.toList_inj.1) hcut).symm

end Parameter

@[mk_iff]
structure MethodSignature.Legible (s : MethodSignature) : Prop where
  returnType : '|' ∉ s.returnType.toList
  parameterTypes : ∀ type ∈ s.parameterTypes, SelfContained type

instance (s : MethodSignature) : Decidable s.Legible :=
  decidable_of_iff' _ s.legible_iff

theorem MethodSignature.Legible.text_inj {s t : MethodSignature} (hs : s.Legible)
    (ht : t.Legible) : s.text = t.text ↔ s = t := by
  obtain ⟨m, result, types⟩ := s
  obtain ⟨n, result', types'⟩ := t
  have hfirst := Text.append_bar_inj m.bar_notMem_name n.bar_notMem_name
    (result.toList ++ '|' :: (",".intercalate types).toList)
    (result'.toList ++ '|' :: (",".intercalate types').toList)
  rw [Text.append_bar_inj hs.returnType ht.returnType] at hfirst
  simp only [String.toList_inj, Modifier.name_inj,
    Parameter.joined_inj hs.parameterTypes ht.parameterTypes] at hfirst
  rw [mk.injEq, ← hfirst, ← String.toList_inj]
  simp [text]

/-- A return type is made of word characters. -/
theorem bar_notMem_returnType {source : String} {r : ClassRecord} (hr : r ∈ (parse source).classes)
    {m : Method} (hm : m ∈ r.methods) : '|' ∉ m.returnType.toList :=
  ((clean_of_mem_parse hr).methods m hm).returnType.notMem (by decide)

/-- Attributes have the same text just if they have the same signature. So have methods whose
return types hold no bar, as those read from a source never do, and whose parameters have types
that do not run into one another. -/
theorem signature_text_faithful :
    (∀ s t : AttributeSignature, s.text = t.text ↔ s = t) ∧
    (∀ s t : MethodSignature, s.Legible → t.Legible → (s.text = t.text ↔ s = t)) ∧
    ∀ source, ∀ r ∈ (parse source).classes, ∀ m ∈ r.methods, '|' ∉ m.returnType.toList :=
  ⟨fun _ _ => AttributeSignature.text_inj, fun _ _ => MethodSignature.Legible.text_inj,
    fun _ _ hr _ => bar_notMem_returnType hr⟩

/-- Commas and a bar inside the types of parameters. -/
theorem signature_text_oddTypes :
    let s : MethodSignature := ⟨.pub, "void", ["P<K,V>", "a|b"]⟩
    let t : MethodSignature := ⟨.pub, "void", ["P<K,V<a|b,>>"]⟩
    s.Legible ∧ t.Legible ∧ s.text ≠ t.text := by
  intro s t
  have hs : s.Legible := by decide
  have ht : t.Legible := by decide
  obtain ⟨_, hmethods, _⟩ := signature_text_faithful
  exact ⟨hs, ht, fun h => absurd ((hmethods s t hs ht).1 h) (by decide)⟩

/-- A comma outside brackets, an empty type or a bar in the return type may give two signatures
one text. -/
example :
    MethodSignature.text ⟨.pub, "void", ["A,B"]⟩ = MethodSignature.text ⟨.pub, "void", ["A", "B"]⟩ ∧
    MethodSignature.text ⟨.pub, "void", [""]⟩ = MethodSignature.text ⟨.pub, "void", []⟩ ∧
    MethodSignature.text ⟨.pub, "void|A", ["B"]⟩ = MethodSignature.text ⟨.pub, "void", ["A|B"]⟩ := by
  decide

end ClassShape
