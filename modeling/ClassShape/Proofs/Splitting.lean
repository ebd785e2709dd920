import ClassShape.Disk.Path
import Mathlib.Data.List.Basic

/-! Cutting a list at every occurrence of a separator. The parts are those that the list is put
together from, with the separator between them. -/
namespace ClassShape.Text
variable {α : Type} [DecidableEq α] {sep : α} {w cs : List α}

theorem split_cons_of_ne {c : α} (h : c ≠ sep) (cs : List α) :
    ∃ v vs, split sep cs = v :: vs ∧ split sep (c :: cs) = (c :: v) :: vs :=
  ⟨(splitParts sep cs).1, (splitParts sep cs).2, rfl, by simp [split, splitParts, h]⟩

theorem split_append_sep (cs ds : List α) :
    split sep (cs ++ sep :: ds) = split sep cs ++ split sep ds := by
  induction cs with
  | nil => simp [split, splitParts]
  | cons c cs ih =>
    by_cases hc : c = sep
    · have hcut : ∀ es, split sep (c :: es) = [] :: split sep es := fun es => by
        simp [split, splitParts, hc]
      rw [List.cons_append, hcut, hcut, ih, List.cons_append]
    · obtain ⟨v, vs, hv, hsplit⟩ := split_cons_of_ne hc cs
      obtain ⟨w, ws, hw, hsplit'⟩ := split_cons_of_ne hc (cs ++ sep :: ds)
      rw [ih, hv, List.cons_append] at hw
      cases hw
      rw [List.cons_append, hsplit', hsplit, List.cons_append]

theorem split_of_notMem (h : sep ∉ w) : split sep w = [w] := by
  induction w with
  | nil => rfl
  | cons c w ih =>
    obtain ⟨hc, hw⟩ := not_or.1 (mt List.mem_cons.2 h)
    obtain ⟨v, vs, hv, hsplit⟩ := split_cons_of_ne (Ne.symm hc) w
    rw [ih hw] at hv
    cases hv
    exact hsplit

theorem split_append (h : sep ∉ w) (cs : List α) :
    split sep (w ++ sep :: cs) = w :: split sep cs := by
  rw [split_append_sep, split_of_notMem h, List.singleton_append]

theorem notMem_of_mem_split (h : w ∈ split sep cs) : sep ∉ w := by
  induction cs generalizing w with
  | nil =>
    rw [split, splitParts, List.mem_singleton] at h
    simp [h]
  | cons c cs ih =>
    by_cases hc : c = sep
    · subst hc
      rw [← List.nil_append (c :: cs), split_append (by simp)] at h
      obtain rfl | h := List.mem_cons.1 h
      · simp
      · exact ih h
    · obtain ⟨v, vs, hv, hsplit⟩ := split_cons_of_ne hc cs
      rw [hsplit] at h
      rw [hv] at ih
      obtain rfl | h := List.mem_cons.1 h
      · simpa [Ne.symm hc] using ih List.mem_cons_self
      · exact ih (List.mem_cons_of_mem v h)

/-- Parts without the separator are read back from between separators. -/
theorem split_intercalate {ws : List (List α)} (hne : ws ≠ []) (h : ∀ w ∈ ws, sep ∉ w) :
    split sep ([sep].intercalate ws) = ws := by
  induction ws with
  | nil => exact absurd rfl hne
  | cons w ws ih =>
    obtain ⟨hw, hws⟩ := List.forall_mem_cons.1 h
    cases ws with
    | nil => simpa using split_of_notMem hw
    | cons v ws =>
      rw [List.intercalate_cons_cons, List.append_assoc, List.singleton_append, split_append hw,
        ih (by simp) hws]

end ClassShape.Text
