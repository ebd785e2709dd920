import ClassShape.Proofs.Splitting
import ClassShape.Proofs.Stripping
import Mathlib.Data.List.Forall2
import Mathlib.Data.List.TakeWhile

/-! Line numbers are kept. Both passes leave characters out and neither leaves out a newline, so the
lines of the result are the lines of the source, each with some of its characters gone. -/
namespace ClassShape

namespace Text

/-- What is left of a text when characters other than newlines are left out. -/
inductive Thinned : List Char → List Char → Prop
  | nil : Thinned [] []
  | keep {cs ds : List Char} (c : Char) : Thinned cs ds → Thinned (c :: cs) (c :: ds)
  | drop {cs ds : List Char} {c : Char} : c ≠ '\n' → Thinned cs ds → Thinned cs (c :: ds)

namespace Thinned
variable {cs ds es : List Char}

theorem refl (cs : List Char) : Thinned cs cs := by
  induction cs with
  | nil => exact .nil
  | cons c cs ih => exact .keep c ih

theorem trans (h : Thinned cs ds) (h' : Thinned ds es) : Thinned cs es := by
  induction h' generalizing cs with
  | nil => exact h
  | keep c h' ih =>
    cases h with
    | keep _ h => exact .keep c (ih h)
    | drop hc h => exact .drop hc (ih h)
  | drop hc h' ih => exact .drop hc (ih h)

theorem append {cs' ds' : List Char} (h : Thinned cs ds) (h' : Thinned cs' ds') :
    Thinned (cs ++ cs') (ds ++ ds') := by
  induction h with
  | nil => exact h'
  | keep c h ih => exact .keep c ih
  | drop hc h ih => exact .drop hc ih

/-- At the most all that is no newline is left out. -/
theorem newlines (cs : List Char) : Thinned (cs.filter (· == '\n')) cs := by
  induction cs with
  | nil => exact .nil
  | cons c cs ih =>
    by_cases hc : c = '\n'
    · simpa [hc] using ih.keep '\n'
    · simpa [hc] using ih.drop hc

theorem sublist (h : Thinned cs ds) : cs.Sublist ds := by
  induction h with
  | nil => exact .slnil
  | keep c h ih => exact ih.cons_cons c
  | drop hc h ih => exact ih.cons _

theorem count_newline (h : Thinned cs ds) : cs.count '\n' = ds.count '\n' := by
  induction h with
  | nil => rfl
  | keep c h ih => rw [List.count_cons, List.count_cons, ih]
  | drop hc h ih => rw [List.count_cons_of_ne hc, ih]

/-- Every line stays where it was. -/
theorem lines (h : Thinned cs ds) :
    List.Forall₂ List.Sublist (split '\n' cs) (split '\n' ds) := by
  induction h with
  | nil => exact .cons .slnil .nil
  | @keep cs ds c h ih =>
    by_cases hc : c = '\n'
    · have hsplit : ∀ es, split '\n' (c :: es) = [] :: split '\n' es := fun es => by
        simpa [hc] using split_append (List.not_mem_nil (a := '\n')) es
      rw [hsplit, hsplit]
      exact .cons .slnil ih
    · obtain ⟨v, vs, hv, hkept⟩ := split_cons_of_ne hc cs
      obtain ⟨w, ws, hw, hsource⟩ := split_cons_of_ne hc ds
      rw [hv, hw, List.forall₂_cons] at ih
      rw [hkept, hsource]
      exact .cons (ih.1.cons_cons c) ih.2
  | @drop cs ds c hc h ih =>
    obtain ⟨w, ws, hw, hsource⟩ := split_cons_of_ne hc ds
    cases hv : split '\n' cs with
    | nil => simp [split] at hv
    | cons v vs =>
      rw [hv, hw, List.forall₂_cons] at ih
      rw [hsource]
      exact .cons (ih.1.cons c) ih.2

end Thinned
end Text

namespace Comment
open Text (Thinned)

theorem dropLines_thinned (cs : List Char) : Thinned (dropLines cs) cs := by
  fun_induction dropLines cs with
  | case1 => exact .nil
  | case2 cs ih =>
    have hnone : (cs.takeWhile (· != '\n')).filter (· == '\n') = [] := by
      refine List.filter_eq_nil_iff.2 fun c hc => ?_
      simpa using List.mem_takeWhile_imp hc
    have hcomment := Thinned.newlines (cs.takeWhile (· != '\n'))
    rw [hnone] at hcomment
    have hline := hcomment.append ih
    rw [List.nil_append, List.takeWhile_append_dropWhile] at hline
    exact (hline.drop (by decide)).drop (by decide)
  | case3 c cs _ ih => exact ih.keep c

theorem dropBlocks_thinned (cs : List Char) : Thinned (dropBlocks cs) cs := by
  fun_induction dropBlocks cs with
  | case1 => exact .nil
  | case2 cs inside rest hsplit ih =>
    have hclosed : Thinned (dropBlocks rest) ('*' :: '/' :: rest) :=
      (ih.drop (by decide)).drop (by decide)
    rw [splitClose_eq_some hsplit]
    exact (((Thinned.newlines inside).append hclosed).drop (by decide)).drop (by decide)
  | case3 => exact .refl _
  | case4 c cs _ ih => exact ih.keep c

theorem strip_thinned (s : String) : Thinned (strip s).toList s.toList := by
  rw [toList_strip]
  exact (dropBlocks_thinned _).trans (dropLines_thinned _)

/-- Stripping keeps the newlines, and each line of the result is what is left of the same line of
the source. -/
theorem strip_keeps_lines (source : String) :
    (strip source).toList.count '\n' = source.toList.count '\n' ∧
    List.Forall₂ List.Sublist (Text.split '\n' (strip source).toList)
      (Text.split '\n' source.toList) :=
  ⟨(strip_thinned source).count_newline, (strip_thinned source).lines⟩

end Comment
end ClassShape
