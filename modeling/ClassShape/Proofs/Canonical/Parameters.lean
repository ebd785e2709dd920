import ClassShape.Proofs.Canonical.Source
import ClassShape.Proofs.ParameterList

/-! Canonical parameter lists are read back: each parameter is one fragment, and the words of the
fragment are those of the type and then the name. -/
namespace ClassShape.Parameter
variable {p : Parameter}

theorem toList_source (p : Parameter) :
    p.source.toList = p.type.toList ++ ' ' :: p.name.toList := by
  simp [source]

theorem read_source (h : p.Canonical) : read p.source.toList = .parameter p := by
  obtain ⟨ws, hne, htype, hfinal, hws⟩ := h.type.words
  have hsource : p.source = " ".intercalate (ws ++ [p.name]) := by
    rw [String.intercalate_append_of_ne_nil hne (by simp), String.intercalate_singleton, ← htype,
      source]
  have hwords : ∀ w ∈ ws ++ [p.name], w ≠ "" ∧ ∀ c ∈ w.toList, Text.isBlank c = false := by
    intro w hw
    rcases List.mem_append.1 hw with hw | hw
    · exact (hws w hw).isWord
    · obtain rfl := List.mem_singleton.1 hw
      exact ⟨h.name.nonempty, fun c hc => isBlank_of_isWordChar (h.name.isWordChar c hc)⟩
  have hhead : (ws ++ [p.name]).head? ≠ some "final" := by
    cases ws with
    | nil => exact absurd rfl hne
    | cons w ws => simpa using hfinal
  rw [read, hsource, Text.words_joined hwords, dropFinal_of_head hhead, ofWords_concat hne, ← htype]

theorem net_source (h : p.Canonical) : net p.source.toList = 0 := by
  have hlt := List.count_eq_zero_of_not_mem (h.name.notMem (c := '<') (by decide))
  have hgt := List.count_eq_zero_of_not_mem (h.name.notMem (c := '>') (by decide))
  have hbal := h.type.balanced
  rw [net_eq_count, toList_source]
  simp [hlt, hgt, hbal]

theorem commasEnclosed_iff {s : String} : CommasEnclosed s ↔ Enclosed 0 s.toList := by
  simp only [CommasEnclosed, Enclosed, net_eq_count]
  refine forall₃_congr fun before after _ => ?_
  omega

theorem enclosed_source (h : p.Canonical) (hc : CommasEnclosed p.type) :
    Enclosed 0 p.source.toList := by
  rw [toList_source, enclosed_append]
  refine ⟨commasEnclosed_iff.1 hc, enclosed_of_notMem ?_⟩
  simpa using h.name.notMem (c := ',') (by decide)

theorem mem_intercalate {sep : List Char} {xs : List (List Char)} {c : Char}
    (h : c ∈ sep.intercalate xs) : c ∈ sep ∨ ∃ x ∈ xs, c ∈ x := by
  induction xs with
  | nil => simp at h
  | cons x xs ih =>
    cases xs with
    | nil => exact Or.inr ⟨x, by simp, by simpa using h⟩
    | cons y ys =>
      rw [List.intercalate_cons_cons, List.mem_append, List.mem_append] at h
      rcases h with (hx | hsep) | hrest
      · exact Or.inr ⟨x, by simp, hx⟩
      · exact Or.inl hsep
      · rcases ih hrest with hsep | ⟨z, hz, hc⟩
        · exact Or.inl hsep
        · exact Or.inr ⟨z, List.mem_cons_of_mem x hz, hc⟩

/-- None of the marks that structure a class is in a canonical list of parameters. -/
theorem notMem_listSource {ps : List Parameter} (h : ∀ p ∈ ps, p.Canonical) {c : Char}
    (hc : c ∈ ['(', ')', '{', '}', ';', '/']) : c ∉ (listSource ps).toList := by
  have hmarks : ['(', ')', '{', '}', ';', '/'].all (fun c => !isIdentifierChar c && c != ' ' &&
      c != ',') = true := by decide
  obtain ⟨⟨hname, hspace⟩, hcomma⟩ : (isIdentifierChar c = false ∧ c ≠ ' ') ∧ c ≠ ',' := by
    simpa using List.all_eq_true.1 hmarks c hc
  intro hmem
  rw [listSource, String.toList_intercalate] at hmem
  rcases mem_intercalate hmem with hsep | ⟨x, hx, hcx⟩
  · simp [hspace, hcomma] at hsep
  · rw [List.map_map] at hx
    obtain ⟨p, hp, rfl⟩ := List.mem_map.1 hx
    simp only [Function.comp_apply, toList_source, List.mem_append, List.mem_cons] at hcx
    rcases hcx with htype | hsp | hn
    · obtain ⟨ws, _, hws, _, hwords⟩ := (h p hp).type.words
      rw [hws, String.toList_intercalate] at htype
      rcases mem_intercalate htype with hsep | ⟨w, hw, hcw⟩
      · simp [hspace] at hsep
      · obtain ⟨v, hv, rfl⟩ := List.mem_map.1 hw
        exact ((hwords v hv).chars c hcw).2 hc
    · exact hspace hsp
    · exact (h p hp).name.notMem hname hn

theorem scan_listSource {ps : List Parameter}
    (h : ∀ p ∈ ps, p.Canonical ∧ CommasEnclosed p.type) : scan (listSource ps).toList = ps := by
  induction ps with
  | nil => simp [listSource, scan_enclosed (enclosed_of_notMem List.not_mem_nil), read, dropFinal,
      ofWords, Reading.parameter?]
  | cons p ps ih =>
    obtain ⟨hp, hcommas⟩ := h p (by simp)
    have hrest := ih fun q hq => h q (List.mem_cons_of_mem p hq)
    cases ps with
    | nil => simp [listSource, scan_enclosed (enclosed_source hp hcommas), read_source hp,
        Reading.parameter?]
    | cons q ps =>
      have hsplit : (listSource (p :: q :: ps)).toList =
          p.source.toList ++ ',' :: ' ' :: (listSource (q :: ps)).toList := by
        simp [listSource]
      rw [hsplit, scan_comma (enclosed_source hp hcommas) (net_source hp), scan_blank (by decide),
        hrest, read_source hp]
      rfl

end ClassShape.Parameter

namespace ClassShape

/-- The words of the type are those the text falls into. -/
theorem isParameterType_iff {s : String} : IsParameterType s ↔
    (Text.words s.toList).map String.ofList ≠ [] ∧
    s = " ".intercalate ((Text.words s.toList).map String.ofList) ∧
    ((Text.words s.toList).map String.ofList).head? ≠ some "final" ∧
    (∀ w ∈ (Text.words s.toList).map String.ofList, IsTypeWord w) ∧
    s.toList.count '<' = s.toList.count '>' := by
  constructor
  · intro htype
    obtain ⟨⟨ws, hne, rfl, hfinal, hws⟩, hbalanced⟩ := htype
    rw [Text.words_joined fun w hw => (hws w hw).isWord]
    exact ⟨hne, rfl, hfinal, hws, hbalanced⟩
  · intro hparts
    obtain ⟨hne, heq, hfinal, hws, hbalanced⟩ := hparts
    exact ⟨⟨_, hne, heq, hfinal, hws⟩, hbalanced⟩

instance (s : String) : Decidable (IsParameterType s) := decidable_of_iff' _ isParameterType_iff

instance (s : String) : Decidable (CommasEnclosed s) :=
  decidable_of_iff' _ Parameter.commasEnclosed_iff

instance (a : Attribute) : Decidable a.Canonical := decidable_of_iff' _ a.canonical_iff

instance (p : Parameter) : Decidable p.Canonical := decidable_of_iff' _ p.canonical_iff

instance (m : Method) : Decidable m.Canonical := decidable_of_iff' _ m.canonical_iff

instance (r : ClassRecord) : Decidable r.Canonical := decidable_of_iff' _ r.canonical_iff

end ClassShape
