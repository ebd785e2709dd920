import ClassShape.Text.Basic
import ClassShape.Token

/-! Reading by offsets, with every access checked. A text is cut only between characters and within
its bounds, a list is entered only within its length, and a count stays in the range of its type;
anything else is a fault. -/
namespace ClassShape

inductive Fault where
  /-- A cut out of order, out of bounds or inside a character. -/
  | slice (start stop : Nat)
  /-- A position that a list does not have. -/
  | index (i length : Nat)
  /-- A name that is not among those kept. -/
  | name (name : String)
  /-- A depth counted down from zero. -/
  | underflow
  /-- A depth out of the range of 32 bits. -/
  | overflow
  /-- A match of no elements, from which a sweep would not move on. -/
  | stall
deriving DecidableEq

abbrev Checked := Except Fault

def Text.IsBoundary (n : Nat) (cs : List Char) : Prop :=
  ∃ before after, cs = before ++ after ∧ byteLength before = n

namespace Text

theorem isBoundary_zero (cs : List Char) : IsBoundary 0 cs := ⟨[], cs, rfl, rfl⟩

theorem isBoundary_nil {n : Nat} : IsBoundary n [] ↔ n = 0 := by
  constructor
  · intro h
    obtain ⟨before, after, heq, rfl⟩ := h
    simp [(List.append_eq_nil_iff.1 heq.symm).1]
  · intro h
    exact h ▸ isBoundary_zero []

theorem isBoundary_cons {n : Nat} {c : Char} {cs : List Char} :
    IsBoundary n (c :: cs) ↔ n = 0 ∨ (c.utf8Size ≤ n ∧ IsBoundary (n - c.utf8Size) cs) := by
  constructor
  · intro h
    obtain ⟨before, after, heq, rfl⟩ := h
    cases before with
    | nil => exact Or.inl rfl
    | cons d before =>
      obtain ⟨rfl, rfl⟩ := List.cons.inj heq
      exact Or.inr ⟨by simp, before, after, rfl, by simp⟩
  · intro h
    rcases h with rfl | ⟨hle, before, after, rfl, hbytes⟩
    · exact isBoundary_zero _
    · exact ⟨c :: before, after, rfl, by rw [byteLength_cons, hbytes]; omega⟩

theorem IsBoundary.le {n : Nat} {cs : List Char} (h : IsBoundary n cs) : n ≤ byteLength cs := by
  obtain ⟨before, after, rfl, rfl⟩ := h
  simp

instance decidableIsBoundary (n : Nat) : (cs : List Char) → Decidable (IsBoundary n cs)
  | [] => decidable_of_iff (n = 0) isBoundary_nil.symm
  | c :: cs =>
    have := decidableIsBoundary (n - c.utf8Size) cs
    decidable_of_iff (n = 0 ∨ (c.utf8Size ≤ n ∧ IsBoundary (n - c.utf8Size) cs))
      isBoundary_cons.symm

theorem eq_nil_of_byteLength {cs : List Char} (h : byteLength cs = 0) : cs = [] := by
  cases cs with
  | nil => rfl
  | cons c cs =>
    have := c.utf8Size_pos
    rw [byteLength_cons] at h
    omega

/-- Of two beginnings of a text, the one with fewer bytes begins the other. -/
theorem isPrefix_of_byteLength_le {as bs cs : List Char} (ha : as <+: cs) (hb : bs <+: cs)
    (h : byteLength as ≤ byteLength bs) : as <+: bs := by
  cases List.prefix_or_prefix_of_prefix ha hb with
  | inl hab => exact hab
  | inr hba =>
    obtain ⟨ds, rfl⟩ := hba
    rw [byteLength_append] at h
    obtain rfl := eq_nil_of_byteLength (show byteLength ds = 0 by omega)
    simp

/-- In a text that begins at offset `pos`, a piece stands at offset `start`. -/
def StandsAt (piece : List Char) (pos start : Nat) (cs : List Char) : Prop :=
  ∃ before after, cs = before ++ (piece ++ after) ∧ pos + byteLength before = start

namespace StandsAt
variable {piece cs ds : List Char} {pos start : Nat}

theorem first (piece cs : List Char) (pos : Nat) : StandsAt piece pos pos (piece ++ cs) :=
  ⟨[], cs, rfl, rfl⟩

theorem append (h : StandsAt piece (pos + byteLength ds) start cs) :
    StandsAt piece pos start (ds ++ cs) := by
  obtain ⟨before, after, rfl, rfl⟩ := h
  exact ⟨ds ++ before, after, by simp, by simp [Nat.add_assoc]⟩

theorem cons {c : Char} (h : StandsAt piece (pos + c.utf8Size) start cs) :
    StandsAt piece pos start (c :: cs) :=
  show StandsAt piece pos start ([c] ++ cs) from append h

theorem le (h : StandsAt piece pos start cs) : pos ≤ start := by
  obtain ⟨before, after, _, rfl⟩ := h
  exact Nat.le_add_right pos _

theorem isBoundary (h : StandsAt piece 0 start cs) : IsBoundary start cs := by
  obtain ⟨before, after, rfl, rfl⟩ := h
  exact ⟨before, piece ++ after, rfl, (Nat.zero_add _).symm⟩

theorem isBoundary_end (h : StandsAt piece 0 start cs) :
    IsBoundary (start + byteLength piece) cs := by
  obtain ⟨before, after, rfl, rfl⟩ := h
  exact ⟨before ++ piece, after, by simp, by simp⟩

theorem stop_le (h : StandsAt piece pos start cs) :
    start + byteLength piece ≤ pos + byteLength cs := by
  obtain ⟨before, after, rfl, rfl⟩ := h
  simp only [byteLength_append]
  omega

theorem append_right (h : StandsAt piece pos start ds) (cs : List Char) :
    StandsAt piece pos start (ds ++ cs) := by
  obtain ⟨before, after, rfl, hstart⟩ := h
  exact ⟨before, after ++ cs, by simp, hstart⟩

/-- What stands in two texts put together stands in one of them, or on both sides of the seam. -/
theorem cases_append (h : StandsAt piece pos start (ds ++ cs)) :
    StandsAt piece pos start ds ∨ StandsAt piece (pos + byteLength ds) start cs ∨
      ∃ us vs, piece = us ++ vs ∧ us ≠ [] ∧ vs ≠ [] ∧ us <:+ ds ∧ vs <+: cs := by
  obtain ⟨before, after, heq, hstart⟩ := h
  cases List.append_eq_append_iff.1 heq with
  | inl hbehind =>
    obtain ⟨us, rfl, hcs⟩ := hbehind
    refine Or.inr (Or.inl ⟨us, after, hcs, ?_⟩)
    rw [← hstart, byteLength_append, Nat.add_assoc]
  | inr hbegin =>
    obtain ⟨us, rfl, hrest⟩ := hbegin
    cases List.append_eq_append_iff.1 hrest with
    | inl hinside =>
      obtain ⟨vs, rfl, -⟩ := hinside
      exact Or.inl ⟨before, vs, rfl, hstart⟩
    | inr hacross =>
      obtain ⟨vs, rfl, rfl⟩ := hacross
      by_cases hvs : vs = []
      · exact Or.inl ⟨before, [], by simp [hvs], hstart⟩
      · by_cases hus : us = []
        · exact Or.inr (Or.inl ⟨[], after, by simp [hus], by simp [hus, ← hstart]⟩)
        · exact Or.inr (Or.inr ⟨us, vs, rfl, hus, hvs, List.suffix_append _ _,
            List.prefix_append _ _⟩)

/-- A single character stands on one side. -/
theorem char_append {c : Char} (h : StandsAt [c] pos start (ds ++ cs)) :
    StandsAt [c] pos start ds ∨ StandsAt [c] (pos + byteLength ds) start cs := by
  apply h.cases_append.imp_right
  intro hside
  refine hside.resolve_right fun ⟨us, vs, hsplit, hus, hvs, _⟩ => ?_
  have hlength := congrArg List.length hsplit
  have := List.length_pos_iff.2 hus
  have := List.length_pos_iff.2 hvs
  rw [List.length_singleton, List.length_append] at hlength
  omega

theorem char_lt {c : Char} (h : StandsAt [c] pos start cs) : start < pos + byteLength cs := by
  have hpos := c.utf8Size_pos
  have hle := h.stop_le
  rw [byteLength_cons] at hle
  omega

theorem mem {c : Char} (h : StandsAt [c] pos start cs) : c ∈ cs := by
  obtain ⟨before, after, rfl, -⟩ := h
  simp

/-- What stands at the beginning begins the text. -/
theorem isPrefix (h : StandsAt piece pos pos cs) : piece <+: cs := by
  obtain ⟨before, after, rfl, hstart⟩ := h
  obtain rfl := eq_nil_of_byteLength (show byteLength before = 0 by omega)
  exact List.prefix_append _ _

/-- What stands up to the end ends the text. -/
theorem isSuffix (h : StandsAt piece pos start cs)
    (hstop : start + byteLength piece = pos + byteLength cs) : piece <:+ cs := by
  obtain ⟨before, after, rfl, rfl⟩ := h
  simp only [byteLength_append] at hstop
  obtain rfl := eq_nil_of_byteLength (show byteLength after = 0 by omega)
  rw [List.append_nil]
  exact List.suffix_append _ _

end StandsAt
end Text

namespace Checked
variable {α β : Type}

def slice (start stop : Nat) (text : List Char) : Checked (List Char) :=
  if start ≤ stop ∧ stop ≤ Text.byteLength text ∧ Text.IsBoundary start text ∧
      Text.IsBoundary stop text then .ok (Text.slice start stop text)
  else .error (.slice start stop)

def sliceFrom (start : Nat) (text : List Char) : Checked (List Char) :=
  slice start (Text.byteLength text) text

def dropTo (i : Nat) (xs : List α) : Checked (List α) :=
  if i ≤ xs.length then .ok (xs.drop i) else .error (.index i xs.length)

def get (i : Nat) (xs : List α) : Checked α :=
  match xs[i]? with
  | some x => .ok x
  | none => .error (.index i xs.length)

def set (i : Nat) (x : α) (xs : List α) : Checked (List α) :=
  if i < xs.length then .ok (xs.set i x) else .error (.index i xs.length)

def removeFirst : List α → Checked (List α)
  | [] => .error (.index 0 0)
  | _ :: xs => .ok xs

def int32 (n : Int) : Checked Int :=
  if -2147483648 ≤ n ∧ n ≤ 2147483647 then .ok n else .error .overflow

def find? (mark : List Char) : List Char → Option Nat
  | [] => if mark = [] then some 0 else none
  | c :: cs =>
    if mark.isPrefixOf (c :: cs) then some 0 else (find? mark cs).map (c.utf8Size + ·)

def sweepFrom (pattern : List α → Checked (Option (β × Nat))) (xs : List α) (i : Nat) :
    Checked (List β) :=
  if i < xs.length then do
    let rest ← dropTo i xs
    match ← pattern rest with
    | none => sweepFrom pattern xs (i + 1)
    | some (b, n) =>
      if 0 < n then do
        let bs ← sweepFrom pattern xs (i + n)
        .ok (b :: bs)
      else .error .stall
  else .ok []
termination_by xs.length - i

@[simp] theorem ok_bind (a : α) (f : α → Checked β) : (Except.ok a >>= f) = f a := rfl

theorem mapM_cons (f : α → Checked β) (x : α) (xs : List α) :
    (x :: xs).mapM f = f x >>= fun b => xs.mapM f >>= fun bs => .ok (b :: bs) :=
  List.mapM_cons

theorem mapM_eq {f : α → Checked β} {g : α → β} {xs : List α} (h : ∀ x ∈ xs, f x = .ok (g x)) :
    xs.mapM f = .ok (xs.map g) := by
  induction xs with
  | nil => rfl
  | cons x xs ih =>
    rw [mapM_cons, h x (by simp), ok_bind, ih fun y hy => h y (List.mem_cons_of_mem x hy), ok_bind,
      List.map_cons]

theorem mapM_eq_filterMap {f : α → Checked β} {g : α → Option β} {xs : List α}
    (h : ∀ x ∈ xs, ∃ b, f x = .ok b ∧ g x = some b) : xs.mapM f = .ok (xs.filterMap g) := by
  induction xs with
  | nil => rfl
  | cons x xs ih =>
    obtain ⟨b, hf, hg⟩ := h x List.mem_cons_self
    rw [mapM_cons, hf, ok_bind, ih fun y hy => h y (List.mem_cons_of_mem x hy), ok_bind,
      List.filterMap_cons_some hg]

theorem slice_eq {start stop : Nat} {text : List Char} (hle : start ≤ stop)
    (hstart : Text.IsBoundary start text) (hstop : Text.IsBoundary stop text) :
    slice start stop text = .ok (Text.slice start stop text) :=
  if_pos ⟨hle, hstop.le, hstart, hstop⟩

section Cuts
variable {start stop : Nat} {text as bs cs : List Char}

/-- A text is cut where it was put together. -/
theorem slice_append (htext : text = as ++ (bs ++ cs)) (hstart : Text.byteLength as = start)
    (hstop : start + Text.byteLength bs = stop) : slice start stop text = .ok bs := by
  subst htext hstart hstop
  have hbegin : Text.IsBoundary (Text.byteLength as) (as ++ (bs ++ cs)) :=
    ⟨as, bs ++ cs, rfl, rfl⟩
  have hend : Text.IsBoundary (Text.byteLength as + Text.byteLength bs) (as ++ (bs ++ cs)) :=
    ⟨as ++ bs, cs, by simp, by simp⟩
  rw [slice_eq (Nat.le_add_right _ _) hbegin hend, Text.slice_append]

theorem slice_eq_ok_iff {piece : List Char} :
    slice start stop text = .ok piece ↔
      ∃ before after, text = before ++ (piece ++ after) ∧ Text.byteLength before = start ∧
        start + Text.byteLength piece = stop := by
  constructor
  · intro h
    rw [slice] at h
    split at h
    · rename_i hcut
      obtain ⟨hle, -, ⟨before, rest, htext, rfl⟩, whole, after, rfl, rfl⟩ := hcut
      obtain ⟨inside, rfl⟩ : before <+: whole :=
        Text.isPrefix_of_byteLength_le ⟨rest, htext.symm⟩ (List.prefix_append _ _) hle
      rw [Text.byteLength_append, List.append_assoc, Text.slice_append] at h
      obtain rfl := Except.ok.inj h
      exact ⟨before, after, List.append_assoc .., rfl, (Text.byteLength_append ..).symm⟩
    · cases h
  · intro h
    obtain ⟨before, after, htext, hstart, hstop⟩ := h
    exact slice_append htext hstart hstop

theorem slice_zero_append (as bs : List Char) :
    slice 0 (Text.byteLength as) (as ++ bs) = .ok as :=
  slice_append (List.nil_append _).symm rfl (Nat.zero_add _)

theorem sliceFrom_append (htext : text = as ++ bs) (hstart : Text.byteLength as = start) :
    sliceFrom start text = .ok bs :=
  slice_append (by rw [htext, List.append_nil]) hstart
    (by rw [htext, Text.byteLength_append, hstart])

/-- No cut is made inside a character. -/
example : slice 1 2 ['é'] = .error (.slice 1 2) := rfl

end Cuts

theorem dropTo_of_le {i : Nat} {xs : List α} (h : i ≤ xs.length) :
    dropTo i xs = .ok (xs.drop i) :=
  if_pos h

end Checked

theorem sweepFrom_eq_drop {α β : Type} (pattern : List α → Option (β × Nat)) (skip : Nat)
    (xs : List α) : sweepFrom pattern skip xs = sweepFrom pattern 0 (xs.drop skip) := by
  induction xs generalizing skip with
  | nil => simp [sweepFrom]
  | cons x xs ih =>
    cases skip with
    | zero => rfl
    | succ skip => simpa [sweepFrom] using ih skip

/-- A sweep by positions finds what a sweep over the list finds, if the pattern never faults on it
and no match is empty. -/
theorem Checked.sweepFrom_eq {α β : Type} {pattern : List α → Checked (Option (β × Nat))}
    {matches? : List α → Option (β × Nat)} {xs : List α}
    (hpattern : ∀ i, pattern (xs.drop i) = .ok (matches? (xs.drop i)))
    (hmoves : ∀ ys b n, matches? ys = some (b, n) → 0 < n) (i : Nat) :
    Checked.sweepFrom pattern xs i = .ok (ClassShape.sweepFrom matches? 0 (xs.drop i)) := by
  -- Each turn moves on by one element or by the length of a match, so less is left to pass.
  induction hleft : xs.length - i using Nat.strongRecOn generalizing i with
  | ind left ih =>
    rw [Checked.sweepFrom]
    by_cases hi : i < xs.length
    · have hcons := List.drop_eq_getElem_cons hi
      rw [if_pos hi, dropTo_of_le (Nat.le_of_lt hi), ok_bind, hpattern, ok_bind]
      cases hm : matches? (xs.drop i) with
      | none =>
        rw [hcons] at hm
        rw [hcons, ClassShape.sweepFrom, hm]
        exact ih _ (by omega) (i + 1) rfl
      | some r =>
        obtain ⟨b, n⟩ := r
        have hn : 0 < n := hmoves _ b n hm
        have hrest : (xs.drop (i + 1)).drop (n - 1) = xs.drop (i + n) := by
          rw [List.drop_drop]
          congr 1
          omega
        have hnext := ih (xs.length - (i + n)) (by omega) (i + n) rfl
        rw [hcons] at hm
        simp only [if_pos hn, hnext, ok_bind]
        rw [hcons, ClassShape.sweepFrom, hm]
        simp only [sweepFrom_eq_drop matches? (n - 1), hrest]
    · rw [if_neg hi, List.drop_eq_nil_of_le (by omega), ClassShape.sweepFrom]

end ClassShape
