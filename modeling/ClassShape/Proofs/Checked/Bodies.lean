import ClassShape.Proofs.Checked.Access
import ClassShape.Proofs.Headers
import ClassShape.Text.Utf8

/-! Class bodies cut out by offsets. Tokens come one after another, each begun and ended between
characters; the braces are counted byte by byte, and the depth is never taken below zero, since the
count starts at the brace of a header. -/
namespace ClassShape

namespace Checked

def tokensFrom (text : List Char) (pos : Nat) : List Char → Checked (List Token)
  | [] => .ok []
  | c :: cs =>
    if Text.isBlank c then tokensFrom text (pos + c.utf8Size) cs
    else if isWordChar c then do
      let stop := pos + Text.byteLength (c :: cs.takeWhile isWordChar)
      let word ← slice pos stop text
      let tokens ← tokensFrom text stop (cs.dropWhile isWordChar)
      .ok (⟨.word (String.ofList word), pos⟩ :: tokens)
    else do
      let stop := pos + c.utf8Size
      let _ ← slice pos stop text
      let tokens ← tokensFrom text stop cs
      .ok (⟨.mark c, pos⟩ :: tokens)
termination_by cs => cs.length
decreasing_by
  · simp
  · exact Nat.lt_succ_of_le (Text.length_dropWhile_le _ cs)
  · simp

def tokenize (text : String) : Checked (List Token) := tokensFrom text.toList 0 text.toList

def closingByte (depth pos : Nat) : List UInt8 → Checked (Option Nat)
  | [] => .ok none
  | b :: bs =>
    if b = 0x7b then closingByte (depth + 1) (pos + 1) bs
    else if b = 0x7d then
      if depth = 0 then .error .underflow
      else if depth - 1 = 0 then .ok (some pos)
      else closingByte (depth - 1) (pos + 1) bs
    else closingByte depth (pos + 1) bs

def matchingBrace (source : String) (brace : Nat) : Checked (Option Nat) := do
  let bytes ← dropTo brace (Text.encode source)
  closingByte 0 brace bytes

def declaration (source : String) (h : Header) : Checked Declaration := do
  match ← matchingBrace source h.brace with
  | some stop => do
    let text ← slice (h.brace + 1) stop source.toList
    .ok (.complete ⟨h.name, h.parent, String.ofList (Text.trim text), h.brace + 1, stop⟩)
  | none => .ok (.unclosed h.name)

def declarations (source : String) : Checked (List Declaration) := do
  let tokens ← tokenize source
  let headers ← sweepFrom (fun ts => .ok (Header.match? ts)) tokens 0
  headers.mapM (declaration source)

theorem tokensFrom_eq {text cs : List Char} {pos : Nat}
    (hleft : ∃ before, text = before ++ cs ∧ Text.byteLength before = pos) :
    tokensFrom text pos cs = .ok (Token.scanFrom pos cs) := by
  fun_induction Token.scanFrom pos cs with
  | case1 pos => rw [tokensFrom]
  | case2 pos c cs hb ih =>
    obtain ⟨before, rfl, rfl⟩ := hleft
    rw [tokensFrom, if_pos hb]
    exact ih ⟨before ++ [c], List.append_cons before c cs, by simp⟩
  | case3 pos c cs hb hw word ih =>
    obtain ⟨before, rfl, rfl⟩ := hleft
    have hsplit : before ++ c :: cs = before ++ (word ++ cs.dropWhile isWordChar) := by
      simp [word]
    have hnext := ih ⟨before ++ word, hsplit.trans (List.append_assoc ..).symm,
      Text.byteLength_append ..⟩
    have hword : slice (Text.byteLength before) (Text.byteLength before + Text.byteLength word)
        (before ++ c :: cs) = .ok word := slice_append hsplit rfl rfl
    rw [tokensFrom, if_neg hb, if_pos hw]
    simp only [word] at hword hnext ⊢
    rw [hword, ok_bind, hnext, ok_bind]
  | case4 pos c cs hb hw ih =>
    obtain ⟨before, rfl, rfl⟩ := hleft
    have hnext := ih ⟨before ++ [c], List.append_cons before c cs, by simp⟩
    have hmark : slice (Text.byteLength before) (Text.byteLength before + c.utf8Size)
        (before ++ c :: cs) = .ok [c] :=
      slice_append (show _ = before ++ ([c] ++ cs) from rfl) rfl rfl
    rw [tokensFrom, if_neg hb, if_neg hw]
    simp only [hmark, hnext, ok_bind]

theorem tokenize_eq (text : String) : tokenize text = .ok (ClassShape.tokenize text) :=
  tokensFrom_eq ⟨[], rfl, rfl⟩

end Checked

namespace Token
variable {pos : Nat} {cs : List Char} {t : Token}

theorem standsAt (h : t ∈ scanFrom pos cs) : Text.StandsAt t.text.toList pos t.start cs := by
  fun_induction scanFrom pos cs with
  | case1 => simp at h
  | case2 pos c cs hb ih => exact (ih h).cons
  | case3 pos c cs hb hw word ih =>
    have hcs : c :: cs = word ++ cs.dropWhile isWordChar := by simp [word]
    rw [hcs]
    rcases List.mem_cons.1 h with rfl | h
    · simpa [text, Lexeme.text] using Text.StandsAt.first word (cs.dropWhile isWordChar) pos
    · exact (ih h).append
  | case4 pos c cs hb hw ih =>
    rcases List.mem_cons.1 h with rfl | h
    · simpa [text, Lexeme.text] using Text.StandsAt.first [c] cs pos
    · exact (ih h).cons

/-- Each token ends before the next begins. -/
theorem pairwise_scanFrom (pos : Nat) (cs : List Char) :
    (scanFrom pos cs).Pairwise fun s t => s.stop ≤ t.start := by
  fun_induction scanFrom pos cs with
  | case1 => exact .nil
  | case2 pos c cs hb ih => exact ih
  | case3 pos c cs hb hw word ih =>
    refine .cons (fun t ht => ?_) ih
    simpa [stop, text, Lexeme.text] using (standsAt ht).le
  | case4 pos c cs hb hw ih =>
    refine .cons (fun t ht => ?_) ih
    simpa [stop, text, Lexeme.text] using (standsAt ht).le

end Token

namespace Text

theorem length_encode (cs : List Char) :
    (cs.flatMap String.utf8EncodeChar).length = byteLength cs := by
  induction cs with
  | nil => rfl
  | cons c cs ih =>
    rw [List.flatMap_cons, List.length_append, String.length_utf8EncodeChar, ih, byteLength_cons]

/-- A byte of a character is the character itself or lies above all that are one byte long. -/
theorem byte_of_mem {c : Char} {b : UInt8} (h : b ∈ String.utf8EncodeChar c) :
    b.toNat = c.toNat ∨ 128 ≤ b.toNat := by
  rw [String.utf8EncodeChar.eq_1] at h
  rw [show c.toNat = c.val.toNat from rfl]
  generalize c.val.toNat = v at h ⊢
  -- One, two, three or four bytes; from two on each has its highest bit set.
  by_cases h₁ : v ≤ 127
  · rw [if_pos h₁, List.mem_singleton] at h
    exact Or.inl (by rw [h, UInt8.toNat_ofNat']; omega)
  · right
    rw [if_neg h₁] at h
    by_cases h₂ : v ≤ 2047
    · simp only [if_pos h₂, List.mem_cons, List.not_mem_nil, or_false] at h
      rcases h with rfl | rfl <;> rw [UInt8.toNat_ofNat'] <;> omega
    · rw [if_neg h₂] at h
      by_cases h₃ : v ≤ 65535
      · simp only [if_pos h₃, List.mem_cons, List.not_mem_nil, or_false] at h
        rcases h with rfl | rfl | rfl <;> rw [UInt8.toNat_ofNat'] <;> omega
      · simp only [if_neg h₃, List.mem_cons, List.not_mem_nil, or_false] at h
        rcases h with rfl | rfl | rfl | rfl <;> rw [UInt8.toNat_ofNat'] <;> omega

/-- The byte of a character below 128 is found in no other character. -/
theorem byte_ne_of_mem {c d : Char} {b : UInt8} (hb : b ∈ String.utf8EncodeChar c) (hne : c ≠ d)
    (hd : d.toNat < 128) : b.toNat ≠ d.toNat := by
  rcases byte_of_mem hb with h | h
  · intro he
    exact hne (Char.ext (UInt32.toNat_inj.1 (h.symm.trans he)))
  · omega

end Text

theorem closingBrace_standsAt {depth pos stop : Nat} {cs : List Char}
    (h : closingBrace depth pos cs = some stop) : Text.StandsAt ['}'] pos stop cs := by
  induction cs generalizing depth pos with
  | nil => simp [closingBrace] at h
  | cons c cs ih =>
    rw [closingBrace] at h
    split at h
    · exact (ih h).cons
    · split at h
      · rename_i hc
        split at h
        · cases h
          rw [hc]
          exact Text.StandsAt.first ['}'] cs _
        · exact (ih h).cons
      · exact (ih h).cons

/-- A brace is closed behind it, if at all. -/
theorem matchingBrace_standsAt {source : List Char} {brace stop : Nat}
    (h : Text.StandsAt ['{'] 0 brace source) (hstop : matchingBrace source brace = some stop) :
    brace + 1 ≤ stop ∧ Text.StandsAt ['}'] 0 stop source := by
  obtain ⟨before, after, rfl, rfl⟩ := h
  rw [Nat.zero_add, matchingBrace, Text.dropBytes_append] at hstop
  have hclose : Text.StandsAt ['}'] (Text.byteLength before + 1) stop after :=
    closingBrace_standsAt (show closingBrace 1 _ after = some stop from hstop)
  refine ⟨by simpa using hclose.le, ?_⟩
  rw [← List.append_assoc]
  apply Text.StandsAt.append
  rw [Nat.zero_add, Text.byteLength_append]
  exact hclose

theorem Header.At.mem_brace {ts : List Token} {h : Header} (hat : At ts h) :
    ⟨.mark '{', h.brace⟩ ∈ ts := by
  cases hat with
  | plain => simp
  | extending => simp

theorem Token.mark_standsAt {c : Char} {start : Nat} {cs : List Char}
    (h : ⟨.mark c, start⟩ ∈ scan cs) : Text.StandsAt [c] 0 start cs := by
  simpa [text, Lexeme.text] using standsAt h

theorem Header.brace_standsAt {source : List Char} {h : Header} (hh : h ∈ headers source) :
    Text.StandsAt ['{'] 0 h.brace source := by
  rw [headers_eq, List.mem_filterMap] at hh
  obtain ⟨i, _, hi⟩ := hh
  have hmem := (at?_eq_some_iff.1 hi).mem_brace
  exact Token.mark_standsAt (List.mem_of_mem_drop hmem)

namespace Checked

theorem closingByte_append {bs : List UInt8} (h : ∀ b ∈ bs, b ≠ 0x7b ∧ b ≠ 0x7d) (depth pos : Nat)
    (cs : List UInt8) :
    closingByte depth pos (bs ++ cs) = closingByte depth (pos + bs.length) cs := by
  induction bs generalizing pos with
  | nil => rfl
  | cons b bs ih =>
    obtain ⟨hopen, hclose⟩ := h b (by simp)
    rw [List.cons_append, closingByte, if_neg hopen, if_neg hclose,
      ih fun b hb => h b (List.mem_cons_of_mem _ hb), List.length_cons]
    congr 1
    omega

/-- With a brace open the depth stays above zero up to the brace that closes it. -/
theorem closingByte_eq {depth : Nat} (hdepth : 0 < depth) (pos : Nat) (cs : List Char) :
    closingByte depth pos (cs.flatMap String.utf8EncodeChar) =
      .ok (closingBrace depth pos cs) := by
  induction cs generalizing depth pos with
  | nil => rfl
  | cons c cs ih =>
    rw [List.flatMap_cons, closingBrace]
    by_cases ho : c = '{'
    · subst ho
      rw [if_pos rfl]
      exact ih (Nat.succ_pos depth) (pos + 1)
    · by_cases hc : c = '}'
      · subst hc
        rw [if_neg ho, if_pos rfl, show String.utf8EncodeChar '}' = [0x7d] by decide,
          List.singleton_append, closingByte, if_neg (by decide), if_pos rfl, if_neg (by omega)]
        by_cases hlast : depth ≤ 1
        · rw [if_pos hlast, if_pos (by omega)]
        · rw [if_neg hlast, if_neg (by omega)]
          exact ih (by omega) (pos + 1)
      · have hbytes : ∀ b ∈ String.utf8EncodeChar c, b ≠ 0x7b ∧ b ≠ 0x7d := by
          intro b hb
          have h₁ := Text.byte_ne_of_mem hb ho (by decide)
          have h₂ := Text.byte_ne_of_mem hb hc (by decide)
          exact ⟨fun he => h₁ (by rw [he]; rfl), fun he => h₂ (by rw [he]; rfl)⟩
        rw [if_neg ho, if_neg hc, closingByte_append hbytes, String.length_utf8EncodeChar,
          ih hdepth]

theorem matchingBrace_eq {source : String} {brace : Nat}
    (h : Text.StandsAt ['{'] 0 brace source.toList) :
    matchingBrace source brace = .ok (ClassShape.matchingBrace source.toList brace) := by
  obtain ⟨before, after, htext, hbrace⟩ := h
  rw [Nat.zero_add] at hbrace
  subst hbrace
  have hbytes : dropTo (Text.byteLength before) (Text.encode source) =
      .ok (('{' :: after).flatMap String.utf8EncodeChar) := by
    rw [Text.encode, htext, List.flatMap_append, ← Text.length_encode before,
      dropTo_of_le (by simp), List.drop_left]
    rfl
  rw [matchingBrace, hbytes, ok_bind, ClassShape.matchingBrace, htext, Text.dropBytes_append]
  exact closingByte_eq (Nat.succ_pos 0) (Text.byteLength before + 1) after

theorem declaration_eq {source : String} {h : Header}
    (hat : Text.StandsAt ['{'] 0 h.brace source.toList) :
    declaration source h = .ok (h.declaration source.toList) := by
  rw [declaration, matchingBrace_eq hat, ok_bind, Header.declaration]
  cases hstop : ClassShape.matchingBrace source.toList h.brace with
  | none => rfl
  | some stop =>
    obtain ⟨hle, hclose⟩ := matchingBrace_standsAt hat hstop
    have hslice : slice (h.brace + 1) stop source.toList =
        .ok (Text.slice (h.brace + 1) stop source.toList) :=
      slice_eq hle hat.isBoundary_end hclose.isBoundary
    simp only [hslice, ok_bind]

theorem declarations_eq (source : String) :
    declarations source = .ok (ClassShape.declarations source) := by
  have hsweep : sweepFrom (fun ts => .ok (Header.match? ts)) (Token.scan source.toList) 0 =
      .ok (headers source.toList) := by
    refine sweepFrom_eq (fun _ => rfl) ?_ 0
    intro ts h n hm
    obtain ⟨_, rfl⟩ := Header.match?_eq_some_iff.1 hm
    rw [Header.size]
    split <;> decide
  rw [declarations, tokenize_eq, ok_bind, ClassShape.tokenize, hsweep, ok_bind,
    ClassShape.declarations]
  exact mapM_eq fun h hh => declaration_eq (Header.brace_standsAt hh)

end Checked
end ClassShape
