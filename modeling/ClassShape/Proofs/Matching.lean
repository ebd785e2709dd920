import ClassShape.Proofs.Spacing.Tokens
import Mathlib.Order.Bounds.Basic

/-! Braces by bytes and by tokens. The brace that closes another is found by counting characters;
counting the bytes or the tokens of the text instead leads to the same brace, which is the first to
bring the number of open braces to zero. -/
namespace ClassShape

namespace Text
variable {c : Char}

theorem encodeChar_of_lt (hc : c.toNat < 128) : String.utf8EncodeChar c = [c.toUInt8] :=
  String.utf8EncodeChar_eq_singleton (Char.utf8Size_eq_one_iff.2 (Nat.le_of_lt_succ hc))

/-- The byte of a character below 128 stands for that character only. -/
theorem mem_encodeChar (hc : c.toNat < 128) {d : Char} :
    c.toUInt8 ∈ String.utf8EncodeChar d ↔ d = c := by
  constructor
  · intro hmem
    by_contra hne
    apply byte_ne_of_mem hmem hne hc
    rw [Char.toUInt8, UInt32.toNat_toUInt8]
    exact Nat.mod_eq_of_lt (show c.toNat < 256 by omega)
  · intro hd
    rw [hd, encodeChar_of_lt hc]
    exact List.mem_singleton_self _

theorem count_encodeChar (hc : c.toNat < 128) (d : Char) :
    (String.utf8EncodeChar d).count c.toUInt8 = [d].count c := by
  by_cases hd : d = c
  · rw [hd, encodeChar_of_lt hc, List.count_singleton_self, List.count_singleton_self]
  · rw [List.count_eq_zero_of_not_mem (mt (mem_encodeChar hc).1 hd),
      List.count_eq_zero_of_not_mem (by simpa using Ne.symm hd)]

theorem count_encode (hc : c.toNat < 128) (cs : List Char) :
    (cs.flatMap String.utf8EncodeChar).count c.toUInt8 = cs.count c := by
  induction cs with
  | nil => rfl
  | cons d cs ih =>
    rw [List.flatMap_cons, List.count_append, count_encodeChar hc, ih, ← List.count_append]
    rfl

/-- The first bytes of a text hold the same marks as its first characters; those that cut a
character in two add nothing. -/
theorem exists_prefix_count (cs : List Char) (n : Nat) :
    ∃ before, before <+: cs ∧ ∀ c : Char, c.toNat < 128 →
      ((cs.flatMap String.utf8EncodeChar).take n).count c.toUInt8 = before.count c := by
  induction cs generalizing n with
  | nil => exact ⟨[], List.prefix_rfl, by simp⟩
  | cons d cs ih =>
    rw [List.flatMap_cons]
    by_cases hn : n < (String.utf8EncodeChar d).length
    · refine ⟨[], List.nil_prefix, fun c hc => List.count_eq_zero_of_not_mem fun hmem => ?_⟩
      rw [List.take_append_of_le_length hn.le] at hmem
      obtain rfl := (mem_encodeChar hc).1 (List.mem_of_mem_take hmem)
      rw [encodeChar_of_lt hc, List.length_singleton, Nat.lt_one_iff] at hn
      simp [hn] at hmem
    · obtain ⟨before, hbefore, hcount⟩ := ih (n - (String.utf8EncodeChar d).length)
      refine ⟨d :: before, List.cons_prefix_cons.2 ⟨rfl, hbefore⟩, fun c hc => ?_⟩
      rw [List.take_append, List.take_of_length_le (Nat.le_of_not_lt hn), List.count_append,
        count_encodeChar hc, hcount c hc, ← List.count_append]
      rfl

/-- Where the byte of a character below 128 is found, that character stands. -/
theorem standsAt_of_byte (hc : c.toNat < 128) {cs : List Char} {n : Nat}
    (h : (cs.flatMap String.utf8EncodeChar)[n]? = some c.toUInt8) : StandsAt [c] 0 n cs := by
  induction cs generalizing n with
  | nil => simp at h
  | cons d cs ih =>
    rw [List.flatMap_cons] at h
    by_cases hn : n < (String.utf8EncodeChar d).length
    · rw [List.getElem?_append_left hn] at h
      obtain rfl := (mem_encodeChar hc).1 (List.mem_of_getElem? h)
      rw [encodeChar_of_lt hc, List.length_singleton, Nat.lt_one_iff] at hn
      rw [hn]
      exact StandsAt.first [d] cs 0
    · rw [List.getElem?_append_right (Nat.le_of_not_lt hn)] at h
      rw [String.length_utf8EncodeChar] at h hn
      obtain ⟨before, after, rfl, hbefore⟩ := ih h
      refine ⟨d :: before, after, rfl, ?_⟩
      rw [byteLength_cons]
      omega

def bytesBetween (source : String) (first last : Nat) : List UInt8 :=
  ((encode source).drop first).take (last + 1 - first)

end Text

def Level (source : String) (first last : Nat) : Prop :=
  first < last ∧ last < (Text.encode source).length ∧
    (Text.bytesBetween source first last).count '{'.toUInt8 =
      (Text.bytesBetween source first last).count '}'.toUInt8

section Level
variable {source : String} {before after inside rest : List Char}

/-- The brace at the first offset is one more that is opened. -/
theorem level_iff (hsource : source.toList = before ++ '{' :: after) (p : Nat) :
    Level source (Text.byteLength before) p ↔
      Text.byteLength before < p ∧ p ≤ Text.byteLength before + Text.byteLength after ∧
        ((after.flatMap String.utf8EncodeChar).take (p - Text.byteLength before)).count
            '{'.toUInt8 + 1 =
          ((after.flatMap String.utf8EncodeChar).take (p - Text.byteLength before)).count
            '}'.toUInt8 := by
  have hbytes : Text.encode source = before.flatMap String.utf8EncodeChar ++
      '{'.toUInt8 :: after.flatMap String.utf8EncodeChar := by
    rw [Text.encode, hsource, List.flatMap_append, List.flatMap_cons,
      Text.encodeChar_of_lt (by decide), List.singleton_append]
  have hlength : (Text.encode source).length =
      Text.byteLength before + Text.byteLength after + 1 := by
    rw [hbytes, List.length_append, List.length_cons, Text.length_encode, Text.length_encode,
      Nat.add_assoc]
  have hbetween : Text.byteLength before < p →
      Text.bytesBetween source (Text.byteLength before) p = '{'.toUInt8 ::
        (after.flatMap String.utf8EncodeChar).take (p - Text.byteLength before) := by
    intro hlt
    rw [Text.bytesBetween, hbytes, ← Text.length_encode before, List.drop_left,
      Nat.sub_add_comm (by rw [Text.length_encode]; exact hlt.le), List.take_succ_cons]
  rw [Level, hlength, Nat.lt_succ_iff]
  refine and_congr_right fun hlt => and_congr_right fun _ => ?_
  rw [hbetween hlt, List.count_cons_self, List.count_cons_of_ne (by decide)]

/-- A text that never closes more than it opens does not do so up to any of its bytes. -/
theorem count_take_encode_le (hopen : ∀ cs, cs <+: after → cs.count '}' ≤ cs.count '{') (n : Nat) :
    ((after.flatMap String.utf8EncodeChar).take n).count '}'.toUInt8 ≤
      ((after.flatMap String.utf8EncodeChar).take n).count '{'.toUInt8 := by
  obtain ⟨cs, hcs, hcount⟩ := Text.exists_prefix_count after n
  rw [hcount '{' (by decide), hcount '}' (by decide)]
  exact hopen cs hcs

theorem not_level (hsource : source.toList = before ++ '{' :: after)
    (hopen : ∀ cs, cs <+: after → cs.count '}' ≤ cs.count '{') (p : Nat) :
    ¬ Level source (Text.byteLength before) p := by
  rw [level_iff hsource]
  have := count_take_encode_le hopen (p - Text.byteLength before)
  omega

/-- The brace behind a balanced text brings the first level. -/
theorem isLeast_level (hsource : source.toList = before ++ '{' :: (inside ++ '}' :: rest))
    (hinside : Balanced inside) :
    IsLeast {p | Level source (Text.byteLength before) p}
      (Text.byteLength before + 1 + Text.byteLength inside) := by
  have hbytes : (inside ++ '}' :: rest).flatMap String.utf8EncodeChar =
      (inside.flatMap String.utf8EncodeChar ++ ['}'.toUInt8]) ++
        rest.flatMap String.utf8EncodeChar := by
    rw [List.flatMap_append, List.flatMap_cons, Text.encodeChar_of_lt (by decide),
      List.append_assoc]
  constructor
  · refine (level_iff hsource _).2 ⟨by omega, ?_, ?_⟩
    · simp only [Text.byteLength_append, Text.byteLength_cons, show '}'.utf8Size = 1 by decide]
      omega
    · have hlength : Text.byteLength before + 1 + Text.byteLength inside - Text.byteLength before =
          (inside.flatMap String.utf8EncodeChar ++ ['}'.toUInt8]).length := by
        rw [List.length_append, Text.length_encode, List.length_singleton]
        omega
      rw [hbytes, hlength, List.take_left, List.count_append, List.count_append,
        Text.count_encode (by decide), Text.count_encode (by decide), hinside.equal]
      rfl
  · intro p hp
    obtain ⟨-, -, hlevel⟩ := (level_iff hsource p).1 hp
    by_contra hlt
    have hle : p - Text.byteLength before ≤ (inside.flatMap String.utf8EncodeChar).length := by
      rw [Text.length_encode]
      omega
    rw [hbytes, List.append_assoc, List.take_append_of_le_length hle] at hlevel
    have := count_take_encode_le hinside.opened (p - Text.byteLength before)
    omega

/-- The offset that is found is the least level, if there is one at all. -/
theorem matchingBrace_level {brace : Nat} (h : Text.StandsAt ['{'] 0 brace source.toList) :
    (∃ stop, matchingBrace source.toList brace = some stop ∧
      IsLeast {p | Level source brace p} stop) ∨
    (matchingBrace source.toList brace = none ∧ ∀ p, ¬ Level source brace p) := by
  obtain ⟨before, after, hsource, hbrace⟩ := h
  rw [Nat.zero_add] at hbrace
  subst hbrace
  rw [List.singleton_append] at hsource
  rw [hsource]
  rcases matchingBrace_cases before after with ⟨inside, rest, rfl, hinside, hstop⟩ | ⟨hopen, hnone⟩
  · exact Or.inl ⟨_, hstop, isLeast_level hsource hinside⟩
  · exact Or.inr ⟨hnone, not_level hsource hopen⟩

end Level

def closingToken (depth : Nat) : List Token → Option Token
  | [] => none
  | t :: ts =>
    if t.lexeme = .mark '{' then closingToken (depth + 1) ts
    else if t.lexeme = .mark '}' then
      if depth ≤ 1 then some t else closingToken (depth - 1) ts
    else closingToken depth ts

/-- Blanks and words hold no braces, and every brace is a token. -/
theorem closingBrace_eq_closingToken (pos : Nat) (cs : List Char) : ∀ depth, 0 < depth →
    closingBrace depth pos cs = (closingToken depth (Token.scanFrom pos cs)).map Token.start := by
  fun_induction Token.scanFrom pos cs with
  | case1 => exact fun _ _ => rfl
  | case2 pos c cs hb ih =>
    intro depth hdepth
    have hopen : c ≠ '{' := Text.ne_of_isBlank hb (by decide)
    have hclose : c ≠ '}' := Text.ne_of_isBlank hb (by decide)
    rw [closingBrace, if_neg hopen, if_neg hclose, ih depth hdepth]
  | case3 pos c cs hb hw word ih =>
    intro depth hdepth
    have hsplit : c :: cs = word ++ cs.dropWhile isWordChar := by simp [word]
    have hword : ∀ d ∈ word, isWordChar d = true := fun d => Token.isWordChar_of_mem_run hw
    have hneutral : Neutral word := by
      apply neutral_of_no_brace
      · exact fun hmem => absurd (hword _ hmem) (by decide)
      · exact fun hmem => absurd (hword _ hmem) (by decide)
    rw [hsplit, hneutral depth pos _ hdepth, ih depth hdepth, closingToken, if_neg (by simp),
      if_neg (by simp)]
  | case4 pos c cs hb hw ih =>
    intro depth hdepth
    rw [closingBrace, closingToken]
    simp only [Lexeme.mark.injEq]
    split
    · exact ih (depth + 1) (Nat.succ_pos depth)
    · split
      · split
        · rfl
        · exact ih (depth - 1) (by omega)
      · exact ih depth hdepth

/-- A mark is a token of its own wherever it stands. -/
theorem Token.mem_of_standsAt {c : Char} (hb : Text.isBlank c = false) (hw : isWordChar c = false)
    {start : Nat} {cs : List Char} (h : Text.StandsAt [c] 0 start cs) : ⟨.mark c, start⟩ ∈ scan cs := by
  obtain ⟨before, after, rfl, rfl⟩ := h
  rw [List.singleton_append, scan, scanFrom_append 0 (seam_of_head (head_not_word hw after)),
    scanFrom_mark hb hw]
  simp

/-- The count over the tokens starts at the token of the brace. -/
theorem matchingBrace_eq_closingToken {source : List Char} {brace i : Nat}
    (h : (Token.scan source)[i]? = some ⟨.mark '{', brace⟩) :
    matchingBrace source brace =
      (closingToken 0 ((Token.scan source).drop i)).map Token.start := by
  have hsuffix := List.drop_suffix i (Token.scan source)
  rw [List.drop_eq_getElem?_toList_append, h, Option.toList_some,
    List.singleton_append] at hsuffix ⊢
  obtain ⟨before, after, hsource, hbefore, hrest⟩ := Token.rest_of_suffix hsuffix
  obtain rfl : Text.byteLength before = brace := by simpa using hbefore
  have htext : (Token.text ⟨.mark '{', Text.byteLength before⟩).toList = ['{'] := by
    simp [Token.text, Lexeme.text]
  rw [hrest, hsource, Token.stop, htext, matchingBrace, Text.dropBytes_append]
  exact closingBrace_eq_closingToken _ after 1 (Nat.succ_pos 0)

/-- A brace is closed at the least offset up to which as many braces are closed as were opened from
it on, by bytes as well as by tokens, and not at all if there is none. -/
theorem matchingBrace_exact (source : String) (brace : Nat)
    (hbrace : (Text.encode source)[brace]? = some '{'.toUInt8) :
    (∀ stop, matchingBrace source.toList brace = some stop ↔
      IsLeast {p | Level source brace p} stop) ∧
    (matchingBrace source.toList brace = none ↔ ∀ p, ¬ Level source brace p) ∧
    (∀ stop, matchingBrace source.toList brace = some stop →
      Text.StandsAt ['}'] 0 stop source.toList) ∧
    (∃ i : Nat, (tokenize source)[i]? = some ⟨.mark '{', brace⟩) ∧
    ∀ i : Nat, (tokenize source)[i]? = some ⟨.mark '{', brace⟩ →
      matchingBrace source.toList brace =
        (closingToken 0 ((tokenize source).drop i)).map Token.start := by
  have hstands : Text.StandsAt ['{'] 0 brace source.toList :=
    Text.standsAt_of_byte (by decide) hbrace
  have hlevel := matchingBrace_level hstands
  refine ⟨?_, ?_, fun stop hstop => (matchingBrace_standsAt hstands hstop).2,
    List.mem_iff_getElem?.1 (Token.mem_of_standsAt (by decide) (by decide) hstands),
    fun i => matchingBrace_eq_closingToken⟩
  · intro stop
    rcases hlevel with ⟨p, hp, hleast⟩ | ⟨hnone, hnot⟩
    · rw [hp, Option.some_inj]
      exact ⟨fun h => h ▸ hleast, fun h => hleast.unique h⟩
    · rw [hnone]
      exact iff_of_false (by simp) fun h => hnot stop h.1
  · rcases hlevel with ⟨p, hp, hleast⟩ | ⟨hnone, hnot⟩
    · rw [hp]
      exact iff_of_false (by simp) fun h => h p hleast.1
    · exact iff_of_true hnone hnot

def oddBraces : String := "é\x7bü\x7b\x7d€\x7d\x7d"

theorem matchingBrace_oddBraces :
    (Text.encode oddBraces)[2]? = some '{'.toUInt8 ∧
    matchingBrace oddBraces.toList 2 = some 10 ∧ IsLeast {p | Level oddBraces 2 p} 10 := by
  have hbrace : (Text.encode oddBraces)[2]? = some '{'.toUInt8 := by decide +kernel
  have hstop : matchingBrace oddBraces.toList 2 = some 10 := by decide +kernel
  exact ⟨hbrace, hstop, ((matchingBrace_exact oddBraces 2 hbrace).1 10).1 hstop⟩

end ClassShape
