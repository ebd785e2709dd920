import ClassShape.Token
import Mathlib.Data.List.TakeWhile

/-! Tokens piece by piece. A text is read as the pieces it is put together from, as long as no
word runs over a seam; only the offsets depend on what stands before a piece. -/
namespace ClassShape

theorem Text.mem_of_inRanges {n : Nat} {rs : List (Nat × Nat)} (h : inRanges n rs = true) :
    ∃ r ∈ rs, r.1 ≤ n ∧ n ≤ r.2 := by
  induction rs with
  | nil => simp [inRanges] at h
  | cons r rs ih =>
    obtain ⟨lo, hi⟩ := r
    by_cases hlo : n < lo
    · simp [inRanges, hlo] at h
    · by_cases hhi : n ≤ hi
      · exact ⟨(lo, hi), by simp, by omega, hhi⟩
      · obtain ⟨r, hr, hn⟩ := ih (by simpa [inRanges, hlo, hhi] using h)
        exact ⟨r, List.mem_cons_of_mem _ hr, hn⟩

theorem Text.ranges_disjoint : (blankRanges.all fun b => alphanumericRanges.all fun a =>
    Nat.blt b.2 a.1 || Nat.blt a.2 b.1) = true := by
  decide +kernel

/-- No character is both blank and alphanumeric. -/
theorem Text.isAlphanumeric_of_isBlank {c : Char} (h : isBlank c = true) :
    isAlphanumeric c = false := by
  cases hc : isAlphanumeric c with
  | false => rfl
  | true =>
    obtain ⟨b, hb, hb₁, hb₂⟩ := mem_of_inRanges h
    obtain ⟨a, ha, ha₁, ha₂⟩ := mem_of_inRanges hc
    have hapart := List.all_eq_true.1 (List.all_eq_true.1 ranges_disjoint b hb) a ha
    simp only [Bool.or_eq_true, Nat.blt_eq] at hapart
    omega

theorem isWordChar_of_isBlank {c : Char} (h : Text.isBlank c = true) : isWordChar c = false := by
  have hne : ∀ d, Text.isBlank d = false → c ≠ d := fun _ => Text.ne_of_isBlank h
  simp [isWordChar, isIdentifierChar, Text.isAlphanumeric_of_isBlank h,
    hne '_' (by decide), hne '<' (by decide), hne '>' (by decide), hne '[' (by decide),
    hne ']' (by decide)]

theorem isBlank_of_isWordChar {c : Char} (h : isWordChar c = true) : Text.isBlank c = false := by
  cases hb : Text.isBlank c with
  | false => rfl
  | true => simp [isWordChar_of_isBlank hb] at h

theorem isWordChar_of_isIdentifierChar {c : Char} (h : isIdentifierChar c = true) :
    isWordChar c = true := by
  simp [isWordChar, h]

theorem head_not_word {c : Char} (h : isWordChar c = false) (cs : List Char) :
    ∀ d, (c :: cs).head? = some d → isWordChar d = false := by
  intro d hd
  obtain rfl : c = d := by simpa using hd
  exact h

/-- No word runs on from the first text into the second. -/
def Seam (cs ds : List Char) : Prop :=
  ∀ c d, cs.getLast? = some c → ds.head? = some d → isWordChar c = true → isWordChar d = false

theorem seam_of_head {cs ds : List Char} (h : ∀ d, ds.head? = some d → isWordChar d = false) :
    Seam cs ds := fun _ d _ hd _ => h d hd

theorem seam_of_last {cs : List Char} {c : Char} (h : isWordChar c = false) (ds : List Char) :
    Seam (cs ++ [c]) ds := by
  intro e d he _ hw
  have : c = e := by simpa using he
  simp [← this, h] at hw

theorem Seam.of_suffix {as bs cs : List Char} (h : Seam as bs) (hc : cs <:+ as) : Seam cs bs := by
  obtain ⟨ds, rfl⟩ := hc
  intro c d hlast hhead hw
  exact h c d (by simp [hlast]) hhead hw

/-- A run of characters that satisfy `p` ends where the first one stands that does not. -/
theorem Text.takeWhile_run {p : Char → Bool} {w cs : List Char} (hw : ∀ c ∈ w, p c = true)
    (hcs : ∀ c, cs.head? = some c → p c = false) :
    (w ++ cs).takeWhile p = w ∧ (w ++ cs).dropWhile p = cs := by
  rw [List.takeWhile_append_of_pos hw, List.dropWhile_append_of_pos hw]
  cases cs with
  | nil => simp
  | cons d cs => simp [hcs d rfl]

namespace Token
variable {c : Char} {cs ds : List Char}

@[simp] theorem scanFrom_nil (pos : Nat) : scanFrom pos [] = [] := by
  rw [scanFrom]

theorem scanFrom_blank (h : Text.isBlank c = true) (pos : Nat) (cs : List Char) :
    scanFrom pos (c :: cs) = scanFrom (pos + c.utf8Size) cs := by
  rw [scanFrom, if_pos h]

theorem scanFrom_mark (hb : Text.isBlank c = false) (hw : isWordChar c = false) (pos : Nat)
    (cs : List Char) :
    scanFrom pos (c :: cs) = ⟨.mark c, pos⟩ :: scanFrom (pos + c.utf8Size) cs := by
  rw [scanFrom, if_neg (by simp [hb]), if_neg (by simp [hw])]

/-- A run of word characters that ends where it ends in the text is one word. -/
theorem scanFrom_word {w : List Char} (hne : w ≠ []) (hw : ∀ c ∈ w, isWordChar c = true)
    (hcs : ∀ c, cs.head? = some c → isWordChar c = false) (pos : Nat) :
    scanFrom pos (w ++ cs) =
      ⟨.word (String.ofList w), pos⟩ :: scanFrom (pos + Text.byteLength w) cs := by
  cases w with
  | nil => exact absurd rfl hne
  | cons c w =>
    have hc := hw c (by simp)
    obtain ⟨ht, hd⟩ := Text.takeWhile_run (fun d hd => hw d (List.mem_cons_of_mem c hd)) hcs
    rw [List.cons_append, scanFrom, if_neg (by simp [isBlank_of_isWordChar hc]), if_pos hc, ht, hd]

theorem scanFrom_word_blank {w : List Char} (hne : w ≠ []) (hw : ∀ c ∈ w, isWordChar c = true)
    (pos : Nat) (cs : List Char) :
    scanFrom pos (w ++ ' ' :: cs) =
      ⟨.word (String.ofList w), pos⟩ :: scanFrom (pos + Text.byteLength w + ' '.utf8Size) cs := by
  rw [scanFrom_word hne hw (head_not_word (by decide) cs), scanFrom_blank (by decide)]

theorem isWordChar_of_mem_run {d : Char} (hc : isWordChar c = true)
    (hd : d ∈ c :: cs.takeWhile isWordChar) : isWordChar d = true := by
  rcases List.mem_cons.1 hd with rfl | hd
  · exact hc
  · exact List.mem_takeWhile_imp hd

/-- The character after a run of word characters, if it belongs to the text or to what follows. -/
theorem head?_after_run (h : Seam (c :: cs) ds) (hc : isWordChar c = true) :
    ∀ d, (cs.dropWhile isWordChar ++ ds).head? = some d → isWordChar d = false := by
  intro d hd
  cases hr : cs.dropWhile isWordChar with
  | nil =>
    have hall : ∀ e ∈ c :: cs, isWordChar e = true := by
      simpa [hc] using List.dropWhile_eq_nil_iff.1 hr
    have hlast := List.getLast?_eq_some_getLast (List.cons_ne_nil c cs)
    exact h _ d hlast (by simpa [hr] using hd) (hall _ (List.getLast_mem _))
  | cons e r =>
    have he : e = d := by simpa [hr] using hd
    have hstop := List.head?_dropWhile_not isWordChar cs
    simpa [hr, he] using hstop

/-- The tokens of two texts with a seam between them. -/
theorem scanFrom_append (pos : Nat) (h : Seam cs ds) :
    scanFrom pos (cs ++ ds) = scanFrom pos cs ++ scanFrom (pos + Text.byteLength cs) ds := by
  fun_induction scanFrom pos cs with
  | case1 pos => simp
  | case2 pos c cs hb ih =>
    rw [List.cons_append, scanFrom_blank hb, ih (h.of_suffix (List.suffix_cons c cs)),
      Text.byteLength_cons, Nat.add_assoc]
  | case3 pos c cs hb hw word ih =>
    -- The word may reach the end of `cs`; the seam then keeps `ds` from lengthening it.
    have hword : ∀ d ∈ word, isWordChar d = true := fun d => isWordChar_of_mem_run hw
    have hsplit : c :: cs = word ++ cs.dropWhile isWordChar := by
      simp [word]
    have hseam : Seam (cs.dropWhile isWordChar) ds :=
      h.of_suffix ((List.dropWhile_suffix _).trans (List.suffix_cons c cs))
    have hbytes := congrArg Text.byteLength hsplit
    rw [Text.byteLength_append] at hbytes
    rw [hbytes, hsplit, List.append_assoc,
      scanFrom_word (by simp [word]) hword (head?_after_run h hw), ih hseam, List.cons_append,
      Nat.add_assoc]
  | case4 pos c cs hb hw ih =>
    rw [List.cons_append, scanFrom_mark (by simpa using hb) (by simpa using hw),
      ih (h.of_suffix (List.suffix_cons c cs)), Text.byteLength_cons, Nat.add_assoc,
      List.cons_append]

end Token

def lexemes (cs : List Char) : List Lexeme := (Token.scan cs).map Token.lexeme

theorem Token.map_lexeme_scanFrom (pos : Nat) (cs : List Char) :
    (scanFrom pos cs).map lexeme = lexemes cs := by
  have hany : ∀ p q, (scanFrom p cs).map lexeme = (scanFrom q cs).map lexeme := by
    intro p q
    fun_induction scanFrom p cs generalizing q with
    | case1 => simp
    | case2 p c cs hb ih => rw [scanFrom_blank hb, ih]
    | case3 p c cs hb hw word ih =>
      rw [scanFrom, if_neg hb, if_pos hw, List.map_cons, List.map_cons, ih]
    | case4 p c cs hb hw ih =>
      rw [scanFrom_mark (by simpa using hb) (by simpa using hw), List.map_cons, List.map_cons, ih]
  exact hany pos 0

section Lexemes
variable {c : Char} {cs ds : List Char}

@[simp] theorem lexemes_nil : lexemes [] = [] := by
  simp [lexemes, Token.scan]

theorem lexemes_blank (h : Text.isBlank c = true) (cs : List Char) :
    lexemes (c :: cs) = lexemes cs := by
  rw [lexemes, Token.scan, Token.scanFrom_blank h, Token.map_lexeme_scanFrom]

theorem lexemes_mark (hb : Text.isBlank c = false) (hw : isWordChar c = false) (cs : List Char) :
    lexemes (c :: cs) = .mark c :: lexemes cs := by
  rw [lexemes, Token.scan, Token.scanFrom_mark hb hw, List.map_cons, Token.map_lexeme_scanFrom]

theorem lexemes_append (h : Seam cs ds) : lexemes (cs ++ ds) = lexemes cs ++ lexemes ds := by
  rw [lexemes, Token.scan, Token.scanFrom_append 0 h, List.map_append, Token.map_lexeme_scanFrom,
    Token.map_lexeme_scanFrom]

theorem mem_of_mark_mem_lexemes (h : .mark c ∈ lexemes cs) : c ∈ cs := by
  rw [lexemes, Token.scan] at h
  generalize 0 = pos at h
  fun_induction Token.scanFrom pos cs with
  | case1 => simp at h
  | case2 pos d cs hb ih => exact List.mem_cons_of_mem d (ih h)
  | case3 pos d cs hb hw word ih =>
    have hrest : .mark c ∈ (Token.scanFrom (pos + Text.byteLength word)
        (cs.dropWhile isWordChar)).map Token.lexeme := by simpa using h
    exact List.mem_cons_of_mem d ((List.dropWhile_sublist isWordChar).subset (ih hrest))
  | case4 pos d cs hb hw ih =>
    rcases List.mem_cons.1 h with he | hrest
    · simp [Lexeme.mark.inj he]
    · exact List.mem_cons_of_mem d (ih hrest)

/-- A word of a text is a run of word characters. -/
theorem run_of_word_mem_lexemes {w : String} (h : .word w ∈ lexemes cs) :
    w ≠ "" ∧ ∀ c ∈ w.toList, isWordChar c = true := by
  rw [lexemes, Token.scan] at h
  generalize 0 = pos at h
  fun_induction Token.scanFrom pos cs with
  | case1 => simp at h
  | case2 pos d cs hb ih => exact ih h
  | case3 pos d cs hb hw word ih =>
    cases List.mem_cons.1 h with
    | inl he =>
      rw [Lexeme.word.inj he, String.toList_ofList]
      exact ⟨by simp [word], fun c => Token.isWordChar_of_mem_run hw⟩
    | inr hrest => exact ih hrest
  | case4 pos d cs hb hw ih =>
    cases List.mem_cons.1 h with
    | inl he => cases he
    | inr hrest => exact ih hrest

end Lexemes
end ClassShape
