import ClassShape.Proofs.Layout
import ClassShape.Proofs.ParameterList
import ClassShape.Proofs.Stripping

/-! Spacing of a text. Two texts that differ only in their blanks, run by run, have one squeezed
form, in which every run of blanks is a single space. Squeezing goes along with the operations that
look for blanks: trimming and cutting into words. -/
namespace ClassShape

namespace Text

def Flush (cs : List Char) : Prop := ∀ c, cs.head? = some c → isBlank c = false

def squeeze : List Char → List Char
  | [] => []
  | c :: cs => if isBlank c then ' ' :: squeeze (cs.dropWhile isBlank) else c :: squeeze cs
termination_by cs => cs.length
decreasing_by
  · exact Nat.lt_succ_of_le (length_dropWhile_le _ cs)
  · simp

end Text

/-- What holds of the empty text and stays true with one more blank in front holds of all blanks. -/
@[elab_as_elim]
theorem Blanks.chars_induction {motive : List Char → Prop} (b : Blanks) (nil : motive [])
    (cons : ∀ c cs, Text.isBlank c = true → motive cs → motive (c :: cs)) : motive b.chars := by
  obtain ⟨blanks, hblank⟩ := b
  show motive blanks
  induction blanks with
  | nil => exact nil
  | cons c blanks ih =>
    exact cons c blanks (hblank c (by simp)) (ih fun d hd => hblank d (List.mem_cons_of_mem c hd))

/-- The second text is the first with each run of blanks replaced by a run of blanks. -/
inductive Relaid : List Char → List Char → Prop where
  | nil : Relaid [] []
  | char {c : Char} {cs ds : List Char} (hc : Text.isBlank c = false) (h : Relaid cs ds) :
    Relaid (c :: cs) (c :: ds)
  | gap (before after : Gap) {cs ds : List Char} (hcs : Text.Flush cs) (h : Relaid cs ds) :
    Relaid (before.chars ++ cs) (after.chars ++ ds)

namespace Text
variable {c : Char} {cs ds : List Char}

theorem flush_cons (hc : isBlank c = false) (cs : List Char) : Flush (c :: cs) := by
  intro d hd
  obtain rfl : c = d := by simpa using hd
  exact hc

theorem Flush.dropWhile (h : Flush cs) : cs.dropWhile isBlank = cs := by
  cases cs with
  | nil => rfl
  | cons c cs => rw [List.dropWhile_cons_of_neg (by simp [h c rfl])]

theorem Flush.of_isPrefix (h : Flush ds) (hp : cs <+: ds) : Flush cs := by
  obtain ⟨es, rfl⟩ := hp
  cases cs with
  | nil => simp [Flush]
  | cons c cs => exact flush_cons (h c rfl) cs

theorem flush_dropWhile (cs : List Char) : Flush (cs.dropWhile isBlank) := by
  intro c hc
  have hstop := List.head?_dropWhile_not isBlank cs
  simpa [hc] using hstop

/-- A text read in runs: blanks, characters that satisfy `p`, and other characters one by one. -/
@[elab_as_elim]
theorem run_induction (p : Char → Bool) {motive : List Char → Prop} (nil : motive [])
    (gap : ∀ (g : Gap) (cs : List Char), Flush cs → motive cs → motive (g.chars ++ cs))
    (run : ∀ w cs : List Char, w ≠ [] → (∀ c ∈ w, p c = true) →
      (∀ c, cs.head? = some c → p c = false) → motive cs → motive (w ++ cs))
    (mark : ∀ (c : Char) (cs : List Char), isBlank c = false → p c = false → motive cs →
      motive (c :: cs))
    (cs : List Char) : motive cs := by
  induction hn : cs.length using Nat.strongRecOn generalizing cs with
  | ind n ih =>
    cases cs with
    | nil => exact nil
    | cons c cs =>
      have hshort : ∀ q : Char → Bool, motive (cs.dropWhile q) := by
        intro q
        have hle := length_dropWhile_le q cs
        exact ih _ (by simp only [List.length_cons] at hn; omega) _ rfl
      cases hb : isBlank c with
      | true =>
        have hblank : ∀ d ∈ c :: cs.takeWhile isBlank, isBlank d = true := by
          intro d hd
          cases hd with
          | head => exact hb
          | tail _ hd => exact List.mem_takeWhile_imp hd
        have hgap := gap ⟨⟨_, hblank⟩, List.cons_ne_nil _ _⟩ _ (flush_dropWhile cs)
          (hshort isBlank)
        simpa using hgap
      | false =>
        cases hp : p c with
        | true =>
          have hword : ∀ d ∈ c :: cs.takeWhile p, p d = true := by
            intro d hd
            cases hd with
            | head => exact hp
            | tail _ hd => exact List.mem_takeWhile_imp hd
          have hstop : ∀ d, (cs.dropWhile p).head? = some d → p d = false := by
            intro d hd
            simpa [hd] using List.head?_dropWhile_not p cs
          simpa using run _ _ (List.cons_ne_nil _ _) hword hstop (hshort p)
        | false =>
          exact mark c cs hb hp (ih _ (by simp only [List.length_cons] at hn; omega) _ rfl)

/-- A text read in runs of blanks, and other characters one by one. -/
@[elab_as_elim]
theorem gap_induction {motive : List Char → Prop} (nil : motive [])
    (gap : ∀ (g : Gap) (cs : List Char), Flush cs → motive cs → motive (g.chars ++ cs))
    (char : ∀ (c : Char) (cs : List Char), isBlank c = false → motive cs → motive (c :: cs))
    (cs : List Char) : motive cs := by
  induction cs using run_induction (fun _ => false) with
  | nil => exact nil
  | gap g cs hcs ih => exact gap g cs hcs ih
  | run w cs hne hw _ _ =>
    cases w with
    | nil => exact absurd rfl hne
    | cons d w => simpa using hw d
  | mark c cs hc _ ih => exact char c cs hc ih

@[simp] theorem squeeze_nil : squeeze [] = [] := by
  rw [squeeze]

theorem squeeze_char (hc : isBlank c = false) (cs : List Char) :
    squeeze (c :: cs) = c :: squeeze cs := by
  rw [squeeze, if_neg (by simp [hc])]

theorem squeeze_gap (g : Gap) (h : Flush cs) : squeeze (g.chars ++ cs) = ' ' :: squeeze cs := by
  obtain ⟨⟨blanks, hblank⟩, hne⟩ := g
  cases blanks with
  | nil => exact absurd rfl hne
  | cons b blanks =>
    have hrest : ∀ d ∈ blanks, isBlank d = true := fun d hd =>
      hblank d (List.mem_cons_of_mem b hd)
    show squeeze (b :: (blanks ++ cs)) = ' ' :: squeeze cs
    rw [squeeze, if_pos (hblank b (by simp)), List.dropWhile_append_of_pos hrest, h.dropWhile]

theorem squeeze_run {w : List Char} (hw : ∀ c ∈ w, isBlank c = false) (cs : List Char) :
    squeeze (w ++ cs) = w ++ squeeze cs := by
  induction w with
  | nil => rfl
  | cons c w ih =>
    rw [List.cons_append, squeeze_char (hw c (by simp)),
      ih fun d hd => hw d (List.mem_cons_of_mem c hd), List.cons_append]

/-- A character that is no blank keeps what stands before it apart from what stands behind. -/
theorem squeeze_split (cs : List Char) (hc : isBlank c = false) (ds : List Char) :
    squeeze (cs ++ c :: ds) = squeeze cs ++ c :: squeeze ds := by
  induction cs using gap_induction with
  | nil => simp [squeeze_char hc]
  | gap g cs hcs ih =>
    have hflush : Flush (cs ++ c :: ds) := by
      cases cs with
      | nil => exact flush_cons hc ds
      | cons d cs => exact flush_cons (hcs d rfl) _
    rw [List.append_assoc, squeeze_gap g hflush, squeeze_gap g hcs, ih, List.cons_append]
  | char d cs hd ih =>
    rw [List.cons_append, squeeze_char hd, squeeze_char hd, ih, List.cons_append]

theorem head?_gap (g : Gap) (h : (g.chars ++ cs).head? = some c) : isBlank c = true := by
  obtain ⟨⟨blanks, hblank⟩, hne⟩ := g
  cases blanks with
  | nil => exact absurd rfl hne
  | cons b blanks => exact hblank c (by simpa [eq_comm] using Or.inl (Option.some.inj h))

theorem not_flush_gap (g : Gap) (cs : List Char) : ¬ Flush (g.chars ++ cs) := by
  intro h
  cases hhead : (g.chars ++ cs).head? with
  | none => simp [g.nonempty] at hhead
  | some c => simpa [head?_gap g hhead] using h c hhead

theorem head?_squeeze (hc : isBlank c = false) (cs : List Char) :
    (squeeze cs).head? = some c ↔ cs.head? = some c := by
  induction cs using gap_induction with
  | nil => simp
  | gap g cs hcs ih =>
    rw [squeeze_gap g hcs]
    constructor
    · intro h
      obtain rfl : ' ' = c := by simpa using h
      simp [show isBlank ' ' = true by decide] at hc
    · intro h
      simp [head?_gap g h] at hc
  | char d cs hd ih => rw [squeeze_char hd, List.head?_cons, List.head?_cons]

theorem squeeze_reverse (cs : List Char) : squeeze cs.reverse = (squeeze cs).reverse := by
  induction cs using gap_induction with
  | nil => simp
  | gap g cs hcs ih =>
    have hgap : squeeze g.chars.reverse = [' '] := by
      let mirrored : Gap := ⟨⟨g.chars.reverse, by simpa using g.blank⟩, by simpa using g.nonempty⟩
      simpa using squeeze_gap mirrored (show Flush [] by simp [Flush])
    rw [List.reverse_append, squeeze_gap g hcs, List.reverse_cons, ← ih]
    cases cs with
    | nil => simpa using hgap
    | cons c cs =>
      rw [List.reverse_cons, List.append_assoc, List.singleton_append, squeeze_split _ (hcs c rfl),
        squeeze_split _ (hcs c rfl), hgap, squeeze_nil, List.append_assoc, List.singleton_append]
  | char c cs hc ih =>
    rw [List.reverse_cons, squeeze_split _ hc, squeeze_char hc, ih, squeeze_nil, List.reverse_cons]

theorem dropWhile_squeeze (cs : List Char) :
    (squeeze cs).dropWhile isBlank = squeeze (cs.dropWhile isBlank) := by
  induction cs using gap_induction with
  | nil => simp
  | gap g cs hcs ih =>
    rw [squeeze_gap g hcs, List.dropWhile_append_of_pos g.blank, ← ih]
    rfl
  | char c cs hc ih =>
    rw [squeeze_char hc, (flush_cons hc _).dropWhile, (flush_cons hc _).dropWhile, squeeze_char hc]

theorem trim_squeeze (cs : List Char) : trim (squeeze cs) = squeeze (trim cs) := by
  rw [trim, trim, trimEnd, trimEnd, dropWhile_squeeze, ← squeeze_reverse, dropWhile_squeeze,
    ← squeeze_reverse]

theorem words_blanks (b : Blanks) (cs : List Char) : words (b.chars ++ cs) = words cs := by
  refine b.chars_induction rfl fun c blanks hc ih => ?_
  rw [List.cons_append, words_blank hc, ih]

theorem words_squeeze (cs : List Char) : words (squeeze cs) = words cs := by
  induction cs using run_induction (!isBlank ·) with
  | nil => rw [squeeze_nil]
  | gap g cs hcs ih => rw [squeeze_gap g hcs, words_blank (by decide), ih, words_blanks]
  | run w cs hne hw hcs ih =>
    have hblank : ∀ c ∈ w, isBlank c = false := fun c hc => by simpa using hw c hc
    have hstop : ∀ c, cs.head? = some c → isBlank c = true := fun c hc => by simpa using hcs c hc
    have hstop' : ∀ c, (squeeze cs).head? = some c → isBlank c = true := by
      intro c hc
      cases hb : isBlank c with
      | true => rfl
      | false => rw [← hstop c ((head?_squeeze hb cs).1 hc), hb]
    rw [squeeze_run hblank, words_run hne hblank hstop', words_run hne hblank hstop, ih]
  | mark c cs hc hp ih => simp [hc] at hp

section Pairs
variable {a b : Char}

theorem pair_infix_blanks (ha : isBlank a = false) (g : Blanks) (cs : List Char) :
    [a, b] <:+: g.chars ++ cs ↔ [a, b] <:+: cs := by
  refine g.chars_induction Iff.rfl fun c blanks hc ih => ?_
  rw [List.cons_append, pair_infix_cons, ih]
  simp [ne_of_isBlank hc ha]

/-- Two characters that are no blanks stand side by side before and after. -/
theorem pair_infix_squeeze (ha : isBlank a = false) (hb : isBlank b = false) (cs : List Char) :
    [a, b] <:+: squeeze cs ↔ [a, b] <:+: cs := by
  induction cs using gap_induction with
  | nil => rw [squeeze_nil]
  | gap g cs hcs ih =>
    have hspace := pair_infix_blanks (b := b) ha (Gap.single ' ' (by decide)).toBlanks (squeeze cs)
    rw [squeeze_gap g hcs, pair_infix_blanks ha, ← ih]
    exact hspace
  | char c cs hc ih =>
    rw [squeeze_char hc, pair_infix_cons, pair_infix_cons, head?_squeeze hb, ih]

end Pairs
end Text

namespace Relaid
open Text
variable {cs ds : List Char}

theorem flush (h : Relaid cs ds) (hcs : Flush cs) : Flush ds := by
  cases h with
  | nil => exact hcs
  | char hc h => exact flush_cons hc _
  | gap before after _ _ => exact absurd hcs (not_flush_gap before _)

theorem squeeze_eq (h : Relaid cs ds) : squeeze cs = squeeze ds := by
  induction h with
  | nil => rfl
  | char hc h ih => rw [squeeze_char hc, squeeze_char hc, ih]
  | gap before after hcs h ih => rw [squeeze_gap _ hcs, squeeze_gap _ (h.flush hcs), ih]

theorem pair_infix_iff {a b : Char} (h : Relaid cs ds) (ha : isBlank a = false)
    (hb : isBlank b = false) : [a, b] <:+: cs ↔ [a, b] <:+: ds := by
  rw [← pair_infix_squeeze ha hb cs, h.squeeze_eq, pair_infix_squeeze ha hb]

theorem of_squeeze_eq (h : squeeze cs = squeeze ds) : Relaid cs ds := by
  -- The first piece of one text is read off the first character of the other's squeezed form.
  have hspace : isBlank ' ' = true := by decide
  induction cs using gap_induction generalizing ds with
  | nil =>
    induction ds using gap_induction with
    | nil => exact .nil
    | gap g ds hds _ => simp [squeeze_gap g hds] at h
    | char d ds hd _ => simp [squeeze_char hd] at h
  | gap g cs hcs ih =>
    rw [squeeze_gap g hcs] at h
    induction ds using gap_induction with
    | nil => simp at h
    | gap g' ds hds _ =>
      rw [squeeze_gap g' hds] at h
      exact .gap g g' hcs (ih (List.cons.inj h).2)
    | char d ds hd _ =>
      rw [squeeze_char hd] at h
      exact absurd (List.cons.inj h).1 (ne_of_isBlank hspace hd)
  | char c cs hc ih =>
    rw [squeeze_char hc] at h
    induction ds using gap_induction with
    | nil => simp at h
    | gap g ds hds _ =>
      rw [squeeze_gap g hds] at h
      exact absurd (List.cons.inj h).1.symm (ne_of_isBlank hspace hc)
    | char d ds hd _ =>
      rw [squeeze_char hd] at h
      obtain ⟨rfl, hrest⟩ := List.cons.inj h
      exact .char hc (ih hrest)

end Relaid

/-- Two texts differ in their blanks only, run by run, when they squeeze to the same text. -/
theorem relaid_iff {cs ds : List Char} : Relaid cs ds ↔ Text.squeeze cs = Text.squeeze ds :=
  ⟨Relaid.squeeze_eq, Relaid.of_squeeze_eq⟩

instance (cs ds : List Char) : Decidable (Relaid cs ds) :=
  decidable_of_iff (Text.squeeze cs = Text.squeeze ds) relaid_iff.symm

end ClassShape
