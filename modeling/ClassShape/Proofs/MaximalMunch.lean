import ClassShape.Proofs.Joined
import ClassShape.Proofs.Pieces

/-! Maximal munch. Pieces marked out in a text are its tokens if no word can be longer, every mark
is one character and only blanks are left out. Where no word runs on from one text into the next,
the pieces of the two together are those of each; so a text is settled run by run, and there is no
other way to mark it out. -/
namespace ClassShape

/-- In a text that begins at offset `pos`, the pieces follow each other without overlap, each is
what it is said to be, and the characters outside them are the blanks. -/
structure Munched (pos : Nat) (cs : List Char) (ps : List Piece) : Prop where
  nonempty : ∀ p ∈ ps, p.start < p.stop
  apart : ps.Pairwise fun p q => p.stop ≤ q.start
  isSlice : ∀ p ∈ ps, p.IsSlice pos cs
  fits : ∀ p ∈ ps, p.Fits pos cs
  covered : ∀ c n, Text.StandsAt [c] pos n cs →
    ((∃ p ∈ ps, p.Covers n) ↔ Text.isBlank c = false)

/-- Pieces in order, none of them across an offset, are those before it and those behind it. -/
theorem exists_split_pieces {ps : List Piece} {m : Nat} (hne : ∀ p ∈ ps, p.start < p.stop)
    (hapart : ps.Pairwise fun p q => p.stop ≤ q.start)
    (hside : ∀ p ∈ ps, p.stop ≤ m ∨ m ≤ p.start) :
    ∃ qs rs, ps = qs ++ rs ∧ (∀ p ∈ qs, p.stop ≤ m) ∧ ∀ p ∈ rs, m ≤ p.start := by
  induction ps with
  | nil => exact ⟨[], [], rfl, by simp, by simp⟩
  | cons p ps ih =>
    obtain ⟨hfirst, hrest⟩ := List.pairwise_cons.1 hapart
    cases hside p (by simp) with
    | inl hp =>
      obtain ⟨qs, rs, rfl, hqs, hrs⟩ := ih (fun q hq => hne q (List.mem_cons_of_mem p hq)) hrest
        fun q hq => hside q (List.mem_cons_of_mem p hq)
      exact ⟨p :: qs, rs, rfl, by simpa using ⟨hp, hqs⟩, hrs⟩
    | inr hp =>
      refine ⟨[], p :: ps, rfl, by simp, List.forall_mem_cons.2 ⟨hp, fun q hq => ?_⟩⟩
      have := hne p (by simp)
      have := hfirst q hq
      omega

namespace Munched
variable {pos : Nat} {cs ds : List Char} {ps qs rs : List Piece}

/-- The pieces that cover a part of a text, as pieces of that part. -/
theorem part {start : Nat} {inside : List Char} (h : Munched pos cs ps) (hsub : qs.Sublist ps)
    (hstands : ∀ c n, Text.StandsAt [c] start n inside → Text.StandsAt [c] pos n cs)
    (hslice : ∀ p ∈ qs, p.IsSlice start inside)
    (hcovers : ∀ c n, Text.StandsAt [c] start n inside → ∀ p ∈ ps, p.Covers n → p ∈ qs) :
    Munched start inside qs where
  nonempty p hp := h.nonempty p (hsub.subset hp)
  apart := h.apart.sublist hsub
  isSlice := hslice
  fits p hp := (h.fits p (hsub.subset hp)).of_neighbours fun _ c n hc _ => Or.inl (hstands c n hc)
  covered c n hc := by
    rw [← h.covered c n (hstands c n hc)]
    constructor
    · intro ⟨p, hp, hn⟩
      exact ⟨p, hsub.subset hp, hn⟩
    · intro ⟨p, hp, hn⟩
      exact ⟨p, hcovers c n hc p hp hn, hn⟩

/-- The pieces on the two sides of a seam. -/
theorem split (h : Munched pos (ds ++ cs) ps) (hseam : Seam ds cs) :
    ∃ qs rs, ps = qs ++ rs ∧ Munched pos ds qs ∧ Munched (pos + Text.byteLength ds) cs rs := by
  have hside : ∀ p ∈ ps, p.IsSlice pos ds ∨ p.IsSlice (pos + Text.byteLength ds) cs :=
    fun p hp => Piece.cases_seam (h.isSlice p hp) (h.fits p hp) hseam
  obtain ⟨qs, rs, rfl, hqs, hrs⟩ := exists_split_pieces h.nonempty h.apart
    fun p hp => (hside p hp).imp Piece.IsSlice.stop_le Piece.IsSlice.le_start
  refine ⟨qs, rs, rfl, h.part (List.sublist_append_left qs rs) ?_ ?_ ?_,
    h.part (List.sublist_append_right qs rs) ?_ ?_ ?_⟩
  · exact fun c n hc => hc.append_right cs
  · intro p hp
    have hmem := List.mem_append_left rs hp
    refine (hside p hmem).resolve_right fun hslice => ?_
    have := h.nonempty p hmem
    have := hqs p hp
    have := hslice.le_start
    omega
  · intro c n hc p hp hn
    refine (List.mem_append.1 hp).resolve_right fun hp => ?_
    have := hrs p hp
    have := hc.char_lt
    have := hn.1
    omega
  · exact fun c n hc => hc.append
  · intro p hp
    have hmem := List.mem_append_right qs hp
    refine (hside p hmem).resolve_left fun hslice => ?_
    have := h.nonempty p hmem
    have := hrs p hp
    have := hslice.stop_le
    omega
  · intro c n hc p hp hn
    refine (List.mem_append.1 hp).resolve_left fun hp => ?_
    have := hqs p hp
    have := hc.le
    have := hn.2
    omega

/-- A word before a seam is a maximal run of the whole as well. -/
theorem fits_append_right (h : Munched pos ds qs) (hseam : Seam ds cs) {p : Piece} (hp : p ∈ qs) :
    p.Fits pos (ds ++ cs) := by
  have hslice := h.isSlice p hp
  have hlt := h.nonempty p hp
  apply (h.fits p hp).of_neighbours
  intro hword c n hc hn
  refine hc.char_append.imp_right fun hc => ?_
  -- A character behind the seam is next to the word only if the word ends at the seam.
  have hge := hc.le
  have hle := hslice.stop_le
  obtain rfl : n = p.stop := hn.resolve_left (by omega)
  have hstop : p.stop = pos + Text.byteLength ds := Nat.le_antisymm hle hge
  have hend := hslice.standsAt.isSuffix (hslice.stop_eq.trans hstop)
  obtain ⟨after, rfl⟩ := (hstop ▸ hc).isPrefix
  exact hseam.head_not_word (hslice.text_ne_nil hlt) hword hend c rfl

/-- A word behind a seam is a maximal run of the whole as well. -/
theorem fits_append_left (h : Munched (pos + Text.byteLength ds) cs rs) (hseam : Seam ds cs)
    {p : Piece} (hp : p ∈ rs) : p.Fits pos (ds ++ cs) := by
  have hslice := h.isSlice p hp
  have hlt := h.nonempty p hp
  apply (h.fits p hp).of_neighbours
  intro hword c n hc hn
  refine hc.char_append.symm.imp_right fun hc => ?_
  have hge := hslice.le_start
  have hle := hc.stop_le
  have hbytes : Text.byteLength [c] = c.utf8Size := Nat.add_zero _
  have hnext : n + c.utf8Size = p.start := hn.resolve_right (by omega)
  have hstart : p.start = pos + Text.byteLength ds := by omega
  have hbegin := (hstart ▸ hslice.standsAt).isPrefix
  obtain ⟨before, rfl⟩ : [c] <:+ ds := hc.isSuffix (by omega)
  exact hseam.last_not_word (hslice.text_ne_nil hlt) hword hbegin c (by simp)

/-- The pieces of two texts with a seam between them. -/
theorem append (hqs : Munched pos ds qs) (hrs : Munched (pos + Text.byteLength ds) cs rs)
    (hseam : Seam ds cs) : Munched pos (ds ++ cs) (qs ++ rs) where
  nonempty p hp := (List.mem_append.1 hp).elim (hqs.nonempty p) (hrs.nonempty p)
  apart := by
    refine List.pairwise_append.2 ⟨hqs.apart, hrs.apart, fun p hp q hq => ?_⟩
    exact (hqs.isSlice p hp).stop_le.trans (hrs.isSlice q hq).le_start
  isSlice p hp := (List.mem_append.1 hp).elim (fun hp => (hqs.isSlice p hp).append_right cs)
    fun hp => (hrs.isSlice p hp).append_left
  fits p hp :=
    (List.mem_append.1 hp).elim (hqs.fits_append_right hseam) (hrs.fits_append_left hseam)
  covered c n hc := by
    cases hc.char_append with
    | inl hc =>
      rw [← hqs.covered c n hc]
      constructor
      · intro ⟨p, hp, hn⟩
        refine ⟨p, (List.mem_append.1 hp).resolve_right fun hp => ?_, hn⟩
        have := (hrs.isSlice p hp).le_start
        have := hc.char_lt
        have := hn.1
        omega
      · intro ⟨p, hp, hn⟩
        exact ⟨p, List.mem_append_left rs hp, hn⟩
    | inr hc =>
      rw [← hrs.covered c n hc]
      constructor
      · intro ⟨p, hp, hn⟩
        refine ⟨p, (List.mem_append.1 hp).resolve_left fun hp => ?_, hn⟩
        have := (hqs.isSlice p hp).stop_le
        have := hc.le
        have := hn.2
        omega
      · intro ⟨p, hp, hn⟩
        exact ⟨p, List.mem_append_right qs hp, hn⟩

end Munched

def Piece.whole (kind : Lexeme.Kind) (pos : Nat) (cs : List Char) : Piece :=
  ⟨kind, cs, pos, pos + Text.byteLength cs⟩

section Runs
variable {pos : Nat} {cs ds w : List Char} {ps : List Piece}

theorem munched_append_iff (hseam : Seam ds cs) : Munched pos (ds ++ cs) ps ↔
    ∃ qs rs, ps = qs ++ rs ∧ Munched pos ds qs ∧ Munched (pos + Text.byteLength ds) cs rs := by
  constructor
  · intro h
    exact h.split hseam
  · intro h
    obtain ⟨qs, rs, rfl, hqs, hrs⟩ := h
    exact hqs.append hrs hseam

/-- In blanks there is nothing to mark out. -/
theorem munched_blanks_iff (hblank : ∀ c ∈ ds, Text.isBlank c = true) :
    Munched pos ds ps ↔ ps = [] := by
  constructor
  · intro h
    refine List.eq_nil_iff_forall_not_mem.2 fun p hp => ?_
    obtain ⟨before, after, rfl, hstart⟩ := (h.isSlice p hp).standsAt
    obtain ⟨c, text, htext⟩ := List.exists_cons_of_ne_nil
      ((h.isSlice p hp).text_ne_nil (h.nonempty p hp))
    have hc : Text.StandsAt [c] pos p.start (before ++ (p.text ++ after)) :=
      ⟨before, text ++ after, by simp [htext], hstart⟩
    have hinside := (h.covered c _ hc).1 ⟨p, hp, le_rfl, h.nonempty p hp⟩
    simp [hblank c hc.mem] at hinside
  · intro h
    subst h
    refine ⟨by simp, .nil, by simp, by simp, fun c n hc => ?_⟩
    simp [hblank c hc.mem]

namespace Munched

/-- A piece begins where the text does, if it does not begin with a blank. -/
theorem exists_first {c : Char} (h : Munched pos (c :: cs) ps) (hc : Text.isBlank c = false) :
    ∃ p ∈ ps, p.start = pos ∧ p.text ≠ [] ∧ p.text <+: c :: cs := by
  have hfirst : Text.StandsAt [c] pos pos (c :: cs) := Text.StandsAt.first [c] cs pos
  obtain ⟨p, hp, hle, -⟩ := (h.covered c pos hfirst).2 hc
  have hslice := h.isSlice p hp
  have hstart : p.start = pos := Nat.le_antisymm hle hslice.le_start
  exact ⟨p, hp, hstart, hslice.text_ne_nil (h.nonempty p hp), (hstart ▸ hslice.standsAt).isPrefix⟩

/-- A piece that is the whole text is the only one. -/
theorem eq_whole (h : Munched pos cs ps) {p : Piece} (hp : p ∈ ps) (hstart : p.start = pos)
    (htext : p.text = cs) : ps = [Piece.whole p.kind pos cs] := by
  have hstop := (h.isSlice p hp).stop_eq
  rw [hstart, htext] at hstop
  have hwhole : p = Piece.whole p.kind pos cs := by
    rw [Piece.whole, hstop, ← hstart, ← htext]
  obtain ⟨qs, rs, rfl⟩ := List.append_of_mem hp
  obtain ⟨-, hbehind, hbefore⟩ := List.pairwise_append.1 h.apart
  have hqs : qs = [] := by
    refine List.eq_nil_iff_forall_not_mem.2 fun q hq => ?_
    have := h.nonempty q (by simp [hq])
    have := (h.isSlice q (by simp [hq])).le_start
    have := hbefore q hq p (by simp)
    omega
  have hrs : rs = [] := by
    refine List.eq_nil_iff_forall_not_mem.2 fun q hq => ?_
    have := h.nonempty q (by simp [hq])
    have := (h.isSlice q (by simp [hq])).stop_le
    have := (List.pairwise_cons.1 hbehind).1 q hq
    omega
  rw [hqs, hrs, List.nil_append, ← hwhole]

end Munched

/-- A text without blanks can be marked out as one piece, if that fits. -/
theorem munched_whole {kind : Lexeme.Kind} (hne : w ≠ []) (hblank : ∀ c ∈ w, Text.isBlank c = false)
    (hfits : (Piece.whole kind pos w).Fits pos w) : Munched pos w [Piece.whole kind pos w] := by
  have hlt : pos < pos + Text.byteLength w := by
    have := mt Text.eq_nil_of_byteLength hne
    omega
  have hslice : (Piece.whole kind pos w).IsSlice pos w :=
    Piece.isSlice_iff.2 ⟨⟨[], [], (List.append_nil w).symm, rfl⟩, rfl⟩
  refine ⟨by simpa [Piece.whole] using hlt, List.pairwise_singleton _ _, by simpa using hslice,
    by simpa using hfits, fun c n hc => ?_⟩
  exact iff_of_true ⟨_, List.mem_singleton_self _, hc.le, hc.char_lt⟩ (hblank c hc.mem)

/-- A run of word characters can only be marked out as one word. -/
theorem munched_word_iff (hne : w ≠ []) (hw : ∀ c ∈ w, isWordChar c = true) :
    Munched pos w ps ↔ ps = [Piece.whole .word pos w] := by
  have hblank : ∀ c ∈ w, Text.isBlank c = false := fun c hc => isBlank_of_isWordChar (hw c hc)
  constructor
  · intro h
    obtain ⟨c, cs, rfl⟩ := List.exists_cons_of_ne_nil hne
    obtain ⟨p, hp, hstart, -, after, hafter⟩ := h.exists_first (hblank c (by simp))
    have hmem : ∀ d ∈ p.text, d ∈ c :: cs := fun d hd => hafter ▸ List.mem_append_left after hd
    have hfits := h.fits p hp
    have hstop := (h.isSlice p hp).stop_eq
    unfold Piece.Fits at hfits
    split at hfits
    · rename_i hkind
      cases after with
      | nil =>
        rw [List.append_nil] at hafter
        rw [h.eq_whole hp hstart hafter, hkind]
      | cons d after =>
        -- A word that ended before the run does would have a word character behind it.
        have hd : Text.StandsAt [d] pos p.stop (c :: cs) :=
          ⟨p.text, after, hafter.symm, by rw [← hstop, hstart]⟩
        have := hfits.behind d hd
        simp [hw d hd.mem] at this
    · rename_i d hkind
      obtain ⟨htext, hd⟩ := hfits
      simp [hw d (hmem d (by simp [htext]))] at hd
  · intro h
    subst h
    refine munched_whole hne hblank ⟨hw, fun c n hc hn => ?_, fun c hc => ?_⟩
    · have := hc.le
      have := c.utf8Size_pos
      simp only [Piece.whole] at hn
      omega
    · have := hc.char_lt
      simp [Piece.whole] at this

/-- A character that is neither blank nor a word character can only be marked out as a mark. -/
theorem munched_mark_iff {c : Char} (hb : Text.isBlank c = false) (hw : isWordChar c = false) :
    Munched pos [c] ps ↔ ps = [Piece.whole (.mark c) pos [c]] := by
  constructor
  · intro h
    obtain ⟨p, hp, hstart, hne, hbegin⟩ := h.exists_first hb
    have htext : p.text = [c] :=
      hbegin.eq_of_length_le (List.length_pos_of_ne_nil hne)
    have hfits := h.fits p hp
    unfold Piece.Fits at hfits
    split at hfits
    · have := hfits.inside c (by simp [htext])
      simp [hw] at this
    · rename_i d hkind
      obtain rfl : c = d := by simpa [htext] using hfits.1
      rw [h.eq_whole hp hstart htext, hkind]
  · intro h
    subst h
    exact munched_whole (by simp) (by simpa using hb) ⟨rfl, hw⟩

/-- Where there is one way to mark out each of two texts with a seam between them, there is one way
to mark out both. -/
theorem munched_append_unique {qs rs : List Piece} (hseam : Seam ds cs)
    (hds : ∀ ps, Munched pos ds ps ↔ ps = qs)
    (hcs : ∀ ps, Munched (pos + Text.byteLength ds) cs ps ↔ ps = rs) :
    Munched pos (ds ++ cs) ps ↔ ps = qs ++ rs := by
  simp only [munched_append_iff hseam, hds, hcs]
  simp

end Runs

namespace Token

theorem piece_word (w : List Char) (pos : Nat) :
    piece ⟨.word (String.ofList w), pos⟩ = Piece.whole .word pos w := by
  simp [piece, Piece.whole, stop, text, Lexeme.text, Lexeme.kind]

theorem piece_mark (c : Char) (pos : Nat) :
    piece ⟨.mark c, pos⟩ = Piece.whole (.mark c) pos [c] := by
  simp [piece, Piece.whole, stop, text, Lexeme.text, Lexeme.kind]

end Token

/-- There is one way to mark out a text, by its tokens. -/
theorem munched_iff (pos : Nat) (cs : List Char) (ps : List Piece) :
    Munched pos cs ps ↔ ps = (Token.scanFrom pos cs).map Token.piece := by
  induction cs using Text.run_induction isWordChar generalizing pos ps with
  | nil =>
    rw [Token.scanFrom_nil]
    exact munched_blanks_iff (by simp)
  | gap g cs hcs ih =>
    have hseam : Seam g.chars cs := by
      intro c d hc _ hw
      have hblank := g.blank c (List.mem_of_getLast? hc)
      simp [isWordChar_of_isBlank hblank] at hw
    rw [Token.scanFrom_blanks]
    exact munched_append_unique hseam (fun _ => munched_blanks_iff g.blank) (ih _)
  | run w cs hne hw hcs ih =>
    rw [Token.scanFrom_word hne hw hcs, List.map_cons, Token.piece_word]
    exact munched_append_unique (seam_of_head hcs) (fun _ => munched_word_iff hne hw) (ih _)
  | mark c cs hb hw ih =>
    have hseam : Seam ([] ++ [c]) cs := seam_of_last hw cs
    rw [Token.scanFrom_mark hb hw, List.map_cons, Token.piece_mark]
    exact munched_append_unique hseam (fun _ => munched_mark_iff hb hw) (ih _)

/-- The tokens of a text are the only pieces that follow each other without overlap, are maximal
runs of word characters or single other characters, and leave out the blanks and nothing else. So
two texts are read one after the other, unless a word runs on from the first into the second. -/
theorem tokenize_munched :
    (∀ (text : String) (ps : List Piece),
      Munched 0 text.toList ps ↔ ps = (tokenize text).map Token.piece) ∧
    ∀ first second : String, Seam first.toList second.toList →
      tokenize (first ++ second) =
        tokenize first ++
          (tokenize second).map (Token.move (Text.byteLength first.toList + ·)) := by
  refine ⟨fun text ps => munched_iff 0 text.toList ps, fun first second hseam => ?_⟩
  have hshift := Token.scanFrom_shift (Text.byteLength first.toList) 0 second.toList
  rw [Nat.add_zero] at hshift
  rw [tokenize, tokenize, tokenize, String.toList_append, Token.scan, Token.scanFrom_append 0 hseam,
    Nat.zero_add, hshift]
  rfl

/-- A word of several bytes that ends a text is not lengthened by the comma after it. -/
theorem tokenize_commaSeam :
    Seam "Map<é".toList ", ü> m".toList ∧
    tokenize ("Map<é" ++ ", ü> m") =
      [⟨.word "Map<é", 0⟩, ⟨.mark ',', 6⟩, ⟨.word "ü>", 8⟩, ⟨.word "m", 12⟩] ∧
    Munched 0 ("Map<é" ++ ", ü> m").toList
      [⟨.word, "Map<é".toList, 0, 6⟩, ⟨.mark ',', [','], 6, 7⟩, ⟨.word, "ü>".toList, 8, 11⟩,
        ⟨.word, ['m'], 12, 13⟩] := by
  have hseam : Seam "Map<é".toList ", ü> m".toList := seam_of_head (head_not_word (by decide) _)
  have hjoined := tokenize_munched.2 "Map<é" ", ü> m" hseam
  refine ⟨hseam, hjoined.trans (by decide +kernel), (tokenize_munched.1 _ _).2 ?_⟩
  rw [hjoined]
  decide +kernel

end ClassShape
