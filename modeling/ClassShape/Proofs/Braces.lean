import ClassShape.ClassBody
import Mathlib.Data.List.Induction
import Mathlib.Data.List.Infix
import Mathlib.Tactic.MkIffOfInductiveProp

/-! Matching braces. A neutral text leaves the depth as it found it and never closes the brace that
was open before; between two braces it is a class body. -/
namespace ClassShape

def Neutral (cs : List Char) : Prop :=
  ∀ depth pos ds, 0 < depth →
    closingBrace depth pos (cs ++ ds) = closingBrace depth (pos + Text.byteLength cs) ds

theorem neutral_of_no_brace {cs : List Char} (ho : '{' ∉ cs) (hc : '}' ∉ cs) : Neutral cs := by
  induction cs with
  | nil => exact fun _ _ _ _ => rfl
  | cons c cs ih =>
    intro depth pos ds hd
    have hne : c ≠ '{' ∧ c ≠ '}' := ⟨fun h => ho (by simp [h]), fun h => hc (by simp [h])⟩
    have ht := ih (fun h => ho (List.mem_cons_of_mem c h)) (fun h => hc (List.mem_cons_of_mem c h))
    rw [List.cons_append, closingBrace, if_neg hne.1, if_neg hne.2, ht _ _ _ hd,
      Text.byteLength_cons, Nat.add_assoc]

namespace Neutral
variable {cs ds : List Char}

theorem append (hc : Neutral cs) (hd : Neutral ds) : Neutral (cs ++ ds) := by
  intro depth pos es hpos
  rw [List.append_assoc, hc depth pos _ hpos, hd depth _ es hpos, Text.byteLength_append,
    Nat.add_assoc]

theorem braced (h : Neutral cs) : Neutral ('{' :: (cs ++ ['}'])) := by
  intro depth pos es hpos
  have hdeep : ¬ depth + 1 ≤ 1 := by omega
  rw [List.cons_append, List.append_assoc, closingBrace, if_pos rfl, h _ _ _ (Nat.succ_pos depth),
    List.singleton_append, closingBrace, if_neg (by decide), if_pos rfl, if_neg hdeep]
  simp [Nat.add_assoc]

theorem flatMap {α : Type} {f : α → List Char} {xs : List α} (h : ∀ x ∈ xs, Neutral (f x)) :
    Neutral (xs.flatMap f) := by
  induction xs with
  | nil => exact fun _ _ _ _ => rfl
  | cons x xs ih =>
    rw [List.flatMap_cons]
    exact (h x (by simp)).append (ih fun y hy => h y (List.mem_cons_of_mem x hy))

/-- The brace before a neutral text is closed by the one after it. -/
theorem matchingBrace_eq (h : Neutral cs) (before after : List Char) :
    matchingBrace (before ++ '{' :: (cs ++ '}' :: after)) (Text.byteLength before) =
      some (Text.byteLength before + 1 + Text.byteLength cs) := by
  rw [matchingBrace, Text.dropBytes_append, closingBrace, if_pos rfl, h _ _ _ (Nat.succ_pos 0),
    closingBrace, if_neg (by decide), if_pos rfl, if_pos (Nat.le_refl 1)]
  rfl

/-- The body of a class is the text between the two braces. -/
theorem declaration_eq (h : Neutral cs) (name : String) (parent : Option String)
    (before after : List Char) :
    Header.declaration (before ++ '{' :: (cs ++ '}' :: after))
        ⟨name, parent, Text.byteLength before⟩ =
      .complete ⟨name, parent, String.ofList (Text.trim cs), Text.byteLength before + 1,
        Text.byteLength before + 1 + Text.byteLength cs⟩ := by
  have hslice : Text.slice (Text.byteLength before + 1)
      (Text.byteLength before + 1 + Text.byteLength cs)
      (before ++ '{' :: (cs ++ '}' :: after)) = cs := by
    simpa [show '{'.utf8Size = 1 by decide] using
      Text.slice_append (before ++ ['{']) cs ('}' :: after)
  simp only [Header.declaration, h.matchingBrace_eq, hslice]

end Neutral

@[mk_iff]
structure Balanced (cs : List Char) : Prop where
  equal : cs.count '{' = cs.count '}'
  opened : ∀ before, before <+: cs → before.count '}' ≤ before.count '{'

instance (cs : List Char) : Decidable (Balanced cs) :=
  decidable_of_iff (cs.count '{' = cs.count '}' ∧
      cs.inits.all (fun before => before.count '}' ≤ before.count '{') = true)
    (by simp [balanced_iff, List.mem_inits])

/-- A text that leaves some brace open all along is passed over. -/
theorem closingBrace_append {depth : Nat} {cs : List Char}
    (h : ∀ before, before <+: cs → before.count '}' < depth + before.count '{') (pos : Nat)
    (ds : List Char) :
    closingBrace depth pos (cs ++ ds) =
      closingBrace (depth + cs.count '{' - cs.count '}') (pos + Text.byteLength cs) ds := by
  induction cs generalizing depth pos with
  | nil => simp
  | cons c cs ih =>
    have hcons : ∀ before, before <+: cs →
        (c :: before).count '}' < depth + (c :: before).count '{' := fun before hb =>
      h (c :: before) (List.cons_prefix_cons.2 ⟨rfl, hb⟩)
    rw [List.cons_append, closingBrace, Text.byteLength_cons, ← Nat.add_assoc]
    by_cases ho : c = '{'
    · subst ho
      have hinner : ∀ before, before <+: cs →
          before.count '}' < depth + 1 + before.count '{' := by
        intro before hb
        have := hcons before hb
        simp only [List.count_cons_self, List.count_cons_of_ne (show '{' ≠ '}' by decide)] at this
        omega
      have hdepth : depth + 1 + cs.count '{' = depth + (cs.count '{' + 1) := by omega
      rw [if_pos rfl, ih hinner, List.count_cons_self,
        List.count_cons_of_ne (show '{' ≠ '}' by decide), hdepth]
    · by_cases hc : c = '}'
      · subst hc
        have hdeep : 1 < depth := by simpa using hcons [] List.nil_prefix
        have hinner : ∀ before, before <+: cs →
            before.count '}' < depth - 1 + before.count '{' := by
          intro before hb
          have := hcons before hb
          simp only [List.count_cons_self, List.count_cons_of_ne ho] at this
          omega
        have hdepth : depth - 1 + cs.count '{' - cs.count '}' =
            depth + cs.count '{' - (cs.count '}' + 1) := by omega
        rw [if_neg ho, if_pos rfl, if_neg (by omega), ih hinner, List.count_cons_self,
          List.count_cons_of_ne ho, hdepth]
      · have hinner : ∀ before, before <+: cs →
            before.count '}' < depth + before.count '{' := by
          intro before hb
          simpa only [List.count_cons_of_ne ho, List.count_cons_of_ne hc] using hcons before hb
        rw [if_neg ho, if_neg hc, ih hinner, List.count_cons_of_ne ho, List.count_cons_of_ne hc]

theorem Balanced.neutral {cs : List Char} (h : Balanced cs) : Neutral cs := by
  intro depth pos ds hpos
  have hopen : ∀ before, before <+: cs → before.count '}' < depth + before.count '{' := by
    intro before hb
    have := h.opened before hb
    omega
  rw [closingBrace_append hopen, h.equal, Nat.add_sub_cancel]

/-- A text either closes the brace before it, at the first place where it can, or leaves it open. -/
theorem exists_closing (cs : List Char) :
    (∃ inside after, cs = inside ++ '}' :: after ∧ Balanced inside) ∨
      ∀ before, before <+: cs → before.count '}' ≤ before.count '{' := by
  induction cs using List.reverseRecOn with
  | nil =>
    right
    intro before hb
    simp [List.prefix_nil.1 hb]
  | append_singleton cs c ih =>
    rcases ih with ⟨inside, after, rfl, hinside⟩ | hopen
    · exact Or.inl ⟨inside, after ++ [c], by simp, hinside⟩
    · have hcs := hopen cs List.prefix_rfl
      by_cases hc : (cs ++ [c]).count '}' ≤ (cs ++ [c]).count '{'
      · right
        intro before hb
        rcases List.prefix_concat_iff.1 hb with rfl | hb
        · exact hc
        · exact hopen before hb
      · left
        rw [List.count_append, List.count_append, List.count_singleton, List.count_singleton] at hc
        have hclose : c = '}' := by
          by_contra hne
          rw [if_neg (by simpa using hne)] at hc
          omega
        subst hclose
        exact ⟨cs, [], rfl, by simp at hc; omega, hopen⟩

theorem matchingBrace_cases (before after : List Char) :
    (∃ inside rest, after = inside ++ '}' :: rest ∧ Balanced inside ∧
      matchingBrace (before ++ '{' :: after) (Text.byteLength before) =
        some (Text.byteLength before + 1 + Text.byteLength inside)) ∨
    ((∀ cs, cs <+: after → cs.count '}' ≤ cs.count '{') ∧
      matchingBrace (before ++ '{' :: after) (Text.byteLength before) = none) := by
  rcases exists_closing after with ⟨inside, rest, rfl, hinside⟩ | hopen
  · exact Or.inl ⟨inside, rest, rfl, hinside, hinside.neutral.matchingBrace_eq before rest⟩
  · refine Or.inr ⟨hopen, ?_⟩
    have hstays : ∀ cs, cs <+: after → cs.count '}' < 1 + cs.count '{' := by
      intro cs hcs
      have := hopen cs hcs
      omega
    have hnone := closingBrace_append hstays (Text.byteLength before + 1) []
    rw [List.append_nil] at hnone
    rw [matchingBrace, Text.dropBytes_append]
    exact hnone

end ClassShape
