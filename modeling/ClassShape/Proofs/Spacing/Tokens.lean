import ClassShape.Proofs.Checked.Bodies
import ClassShape.Proofs.Spacing.Text

/-! Offsets in a squeezed text. Squeezing moves the characters that are no blanks; one function
takes their old offsets to the new ones, and the tokens and closing braces of the squeezed text are
those of the text, moved by it. -/
namespace ClassShape

namespace Text
variable {f : Nat → Nat} {pos pos' : Nat} {c : Char} {cs : List Char}

def squeezedOffset (cs : List Char) (n : Nat) : Nat := byteLength (squeeze (takeBytes n cs))

/-- For a text that begins at offset `pos` and whose squeezed form begins at `pos'`, `f` says where
each character that is no blank goes. -/
def Tracks (f : Nat → Nat) (pos pos' : Nat) (cs : List Char) : Prop :=
  ∀ before c after, cs = before ++ c :: after → isBlank c = false →
    f (pos + byteLength before) = pos' + byteLength (squeeze before)

theorem tracks_squeezedOffset (cs : List Char) : Tracks (squeezedOffset cs) 0 0 cs := by
  intro before c after hcs _
  rw [squeezedOffset, hcs, Nat.zero_add, Nat.zero_add, takeBytes_append]

namespace Tracks

theorem first (h : Tracks f pos pos' (c :: cs)) (hc : isBlank c = false) : f pos = pos' := by
  simpa using h [] c cs rfl hc

/-- Behind a character that is no blank the text goes on as one of its own. -/
theorem split {before after : List Char} (h : Tracks f pos pos' (before ++ c :: after))
    (hc : isBlank c = false) :
    Tracks f (pos + byteLength before + c.utf8Size)
      (pos' + byteLength (squeeze before) + c.utf8Size) after := by
  intro inner d rest hafter hd
  have htrack := h (before ++ c :: inner) d rest (by simp [hafter]) hd
  rw [squeeze_split _ hc] at htrack
  simpa [Nat.add_assoc] using htrack

theorem run {w : List Char} (h : Tracks f pos pos' (w ++ cs))
    (hw : ∀ c ∈ w, isBlank c = false) :
    Tracks f (pos + byteLength w) (pos' + byteLength w) cs := by
  intro before c after hcs hc
  have htrack := h (w ++ before) c after (by simp [hcs]) hc
  rw [squeeze_run hw] at htrack
  simpa [Nat.add_assoc] using htrack

theorem char (h : Tracks f pos pos' (c :: cs)) (hc : isBlank c = false) :
    Tracks f (pos + c.utf8Size) (pos' + c.utf8Size) cs := by
  have hsplit : Tracks f pos pos' ([] ++ c :: cs) := h
  simpa using hsplit.split hc

theorem gap {g : Gap} (h : Tracks f pos pos' (g.chars ++ cs)) (hcs : Flush cs) :
    Tracks f (pos + byteLength g.chars) (pos' + ' '.utf8Size) cs := by
  intro before c after heq hc
  have hbefore : Flush before := hcs.of_isPrefix ⟨c :: after, heq.symm⟩
  have htrack := h (g.chars ++ before) c after (by simp [heq]) hc
  rw [squeeze_gap g hbefore] at htrack
  simpa [Nat.add_assoc] using htrack

end Tracks

/-- In the text, `inside` stands between the mark `c` at offset `start` and the mark `d` at offset
`stop`. -/
def Between (c d : Char) (start stop : Nat) (cs inside : List Char) : Prop :=
  ∃ before after, cs = before ++ c :: (inside ++ d :: after) ∧ byteLength before = start ∧
    start + c.utf8Size + byteLength inside = stop

namespace Between
variable {d : Char} {start stop : Nat} {inside : List Char}

theorem slice_eq (h : Between c d start stop cs inside) :
    slice (start + c.utf8Size) stop cs = inside := by
  obtain ⟨before, after, rfl, rfl, rfl⟩ := h
  simpa using slice_append (before ++ [c]) inside (d :: after)

theorem squeezed (h : Between c d start stop cs inside) (hc : isBlank c = false)
    (hd : isBlank d = false) :
    Between c d (squeezedOffset cs start) (squeezedOffset cs stop) (squeeze cs)
      (squeeze inside) := by
  obtain ⟨before, after, rfl, rfl, rfl⟩ := h
  have htracks := tracks_squeezedOffset (before ++ c :: (inside ++ d :: after))
  have hopen := htracks before c _ rfl hc
  have hclose := htracks (before ++ c :: inside) d after (by simp) hd
  rw [squeeze_split _ hc] at hclose
  simp only [byteLength_append, byteLength_cons, Nat.zero_add, ← Nat.add_assoc] at hopen hclose
  refine ⟨squeeze before, squeeze after, ?_, hopen.symm, ?_⟩
  · rw [squeeze_split _ hc, squeeze_split _ hd]
  · rw [hopen, hclose]

/-- Cutting between two marks and squeezing can be done in either order. -/
theorem slice_squeeze (h : Between c d start stop cs inside) (hc : isBlank c = false)
    (hd : isBlank d = false) :
    slice (squeezedOffset cs start + c.utf8Size) (squeezedOffset cs stop) (squeeze cs) =
      squeeze (slice (start + c.utf8Size) stop cs) := by
  rw [(h.squeezed hc hd).slice_eq, h.slice_eq]

end Between
end Text

namespace Token
open Text
variable {f : Nat → Nat} {pos pos' : Nat} {cs : List Char}

def move (f : Nat → Nat) (t : Token) : Token := ⟨t.lexeme, f t.start⟩

theorem map_lexeme_move (f : Nat → Nat) (ts : List Token) :
    (ts.map (move f)).map lexeme = ts.map lexeme := by
  rw [List.map_map]
  rfl

theorem scanFrom_squeeze (h : Tracks f pos pos' cs) :
    scanFrom pos' (squeeze cs) = (scanFrom pos cs).map (move f) := by
  induction cs using run_induction isWordChar generalizing pos pos' with
  | nil => simp
  | gap g cs hcs ih =>
    rw [squeeze_gap g hcs, scanFrom_blank (by decide), scanFrom_blanks, ih (h.gap hcs)]
  | run w cs hne hw hcs ih =>
    have hblank : ∀ c ∈ w, isBlank c = false := fun c hc => isBlank_of_isWordChar (hw c hc)
    have hstop : ∀ c, (squeeze cs).head? = some c → isWordChar c = false := by
      intro c hc
      cases hb : isBlank c with
      | true => exact isWordChar_of_isBlank hb
      | false => exact hcs c ((head?_squeeze hb cs).1 hc)
    have hfirst : f pos = pos' := by
      cases w with
      | nil => exact absurd rfl hne
      | cons c w => exact h.first (hblank c (by simp))
    rw [squeeze_run hblank, scanFrom_word hne hw hstop, scanFrom_word hne hw hcs, List.map_cons,
      ih (h.run hblank), move, hfirst]
  | mark c cs hc hw ih =>
    rw [squeeze_char hc, scanFrom_mark hc hw, scanFrom_mark hc hw, List.map_cons,
      ih (h.char hc), move, h.first hc]

theorem scan_squeeze (cs : List Char) :
    scan (squeeze cs) = (scan cs).map (move (squeezedOffset cs)) :=
  scanFrom_squeeze (tracks_squeezedOffset cs)

/-- What follows a token is read from the text behind it. -/
theorem rest_of_suffix {t : Token} {ts : List Token} (h : t :: ts <:+ scanFrom pos cs) :
    ∃ before after, cs = before ++ (t.text.toList ++ after) ∧ pos + byteLength before = t.start ∧
      ts = scanFrom t.stop after := by
  fun_induction scanFrom pos cs with
  | case1 => simp at h
  | case2 pos c cs hb ih =>
    obtain ⟨before, after, rfl, hstart, hts⟩ := ih h
    exact ⟨c :: before, after, rfl, by simpa [Nat.add_assoc] using hstart, hts⟩
  | case3 pos c cs hb hw word ih =>
    have hcs : c :: cs = word ++ cs.dropWhile isWordChar := by simp [word]
    rw [hcs]
    cases List.suffix_cons_iff.1 h with
    | inl heq =>
      obtain ⟨rfl, rfl⟩ := List.cons.inj heq
      exact ⟨[], cs.dropWhile isWordChar, by simp [text, Lexeme.text], rfl,
        by simp [stop, text, Lexeme.text]⟩
    | inr hrest =>
      obtain ⟨before, after, heq, hstart, hts⟩ := ih hrest
      exact ⟨word ++ before, after, by simp [heq], by simpa [Nat.add_assoc] using hstart, hts⟩
  | case4 pos c cs hb hw ih =>
    cases List.suffix_cons_iff.1 h with
    | inl heq =>
      obtain ⟨rfl, rfl⟩ := List.cons.inj heq
      exact ⟨[], cs, by simp [text, Lexeme.text], rfl, by simp [stop, text, Lexeme.text]⟩
    | inr hrest =>
      obtain ⟨before, after, rfl, hstart, hts⟩ := ih hrest
      exact ⟨c :: before, after, rfl, by simpa [Nat.add_assoc] using hstart, hts⟩

/-- The text between two marks, by their tokens. -/
theorem exists_between {c d : Char} {start stop : Nat} {ts : List Token}
    (h : ⟨.mark c, start⟩ :: ts <:+ scan cs) (hd : ⟨.mark d, stop⟩ ∈ ts) :
    ∃ inside, Between c d start stop cs inside := by
  obtain ⟨before, rest, rfl, hstart, rfl⟩ := rest_of_suffix h
  obtain ⟨inside, after, rfl, hstop⟩ := standsAt hd
  refine ⟨inside, before, after, ?_, by simpa using hstart, ?_⟩
  · simp [text, Lexeme.text]
  · simpa [Token.stop, text, Lexeme.text] using hstop

end Token

theorem Blanks.notMem (b : Blanks) {c : Char} (hc : Text.isBlank c = false) : c ∉ b.chars := by
  intro hmem
  simp [b.blank c hmem] at hc

theorem Blanks.neutral (b : Blanks) : Neutral b.chars :=
  neutral_of_no_brace (b.notMem (by decide)) (b.notMem (by decide))

/-- Blanks do not count for the depth of braces. -/
theorem closingBrace_squeeze {f : Nat → Nat} {depth pos pos' : Nat} {cs : List Char}
    (hdepth : 0 < depth) (h : Text.Tracks f pos pos' cs) :
    closingBrace depth pos' (Text.squeeze cs) = (closingBrace depth pos cs).map f := by
  induction cs using Text.gap_induction generalizing depth pos pos' with
  | nil =>
    rw [Text.squeeze_nil]
    rfl
  | gap g cs hcs ih =>
    have hspace := (Gap.single ' ' (by decide)).neutral depth pos' (Text.squeeze cs) hdepth
    rw [Text.squeeze_gap g hcs, g.neutral depth pos cs hdepth, ← ih hdepth (h.gap hcs)]
    exact hspace
  | char c cs hc ih =>
    rw [Text.squeeze_char hc, closingBrace, closingBrace]
    by_cases hopen : c = '{'
    · rw [if_pos hopen, if_pos hopen, ih (Nat.succ_pos depth) (h.char hc)]
    · by_cases hclose : c = '}'
      · by_cases hlast : depth ≤ 1
        · rw [if_neg hopen, if_pos hclose, if_pos hlast, if_neg hopen, if_pos hclose,
            if_pos hlast, Option.map_some, h.first hc]
        · rw [if_neg hopen, if_pos hclose, if_neg hlast, if_neg hopen, if_pos hclose,
            if_neg hlast, ih (by omega) (h.char hc)]
      · rw [if_neg hopen, if_neg hclose, if_neg hopen, if_neg hclose, ih hdepth (h.char hc)]

end ClassShape
