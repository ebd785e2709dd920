import ClassShape.Proofs.Nesting

/-! Bodies read a second time. The members of a class are read from its trimmed body, which is cut
into tokens anew. These are the tokens that the source has between the two braces: neither brace is
part of a word, and what is trimmed is part of no token. -/
namespace ClassShape

theorem Text.flush_trim (cs : List Char) : Flush (trim cs) ∧ Flush (trim cs).reverse := by
  have hend : (trim cs).reverse = (cs.dropWhile isBlank).reverse.dropWhile isBlank := by
    rw [trim, trimEnd, List.reverse_reverse]
  have hbegin : trim cs <+: cs.dropWhile isBlank := by
    rw [← List.reverse_suffix, hend]
    exact List.dropWhile_suffix _
  rw [hend]
  exact ⟨(flush_dropWhile cs).of_isPrefix hbegin, flush_dropWhile _⟩

/-- What stands between two marks is a slice of the text. -/
theorem Text.Between.checked_slice {c d : Char} {start stop : Nat} {cs inside : List Char}
    (h : Between c d start stop cs inside) :
    Checked.slice (start + c.utf8Size) stop cs = .ok inside := by
  obtain ⟨before, after, rfl, rfl, rfl⟩ := h
  exact Checked.slice_eq_ok_iff.2 ⟨before ++ [c], d :: after, by simp, by simp, rfl⟩

namespace Token
variable {pos first last : Nat} {cs : List Char}

def isWithin (first last : Nat) (t : Token) : Bool := first < t.start ∧ t.stop ≤ last

theorem bounds {t : Token} (h : t ∈ scanFrom pos cs) :
    pos ≤ t.start ∧ t.start ≤ t.stop ∧ t.stop ≤ pos + Text.byteLength cs :=
  ⟨(standsAt h).le, Nat.le_add_right _ _, (standsAt h).stop_le⟩

theorem filter_isWithin_before (h : pos + Text.byteLength cs ≤ first) :
    (scanFrom pos cs).filter (isWithin first last) = [] := by
  refine List.filter_eq_nil_iff.2 fun t ht => ?_
  have := bounds ht
  simp only [isWithin, decide_eq_true_eq]
  omega

theorem filter_isWithin_behind (h : last < pos) :
    (scanFrom pos cs).filter (isWithin first last) = [] := by
  refine List.filter_eq_nil_iff.2 fun t ht => ?_
  have := bounds ht
  simp only [isWithin, decide_eq_true_eq]
  omega

theorem filter_isWithin_inside (hfirst : first < pos) (hlast : pos + Text.byteLength cs ≤ last) :
    (scanFrom pos cs).filter (isWithin first last) = scanFrom pos cs := by
  refine List.filter_eq_self.2 fun t ht => ?_
  have := bounds ht
  simp only [isWithin, decide_eq_true_eq]
  omega

/-- The tokens between two marks are those of the text between them. -/
theorem filter_isWithin_between {c d : Char} {inside : List Char}
    (h : Text.Between c d first last cs inside)
    (hc : Text.isBlank c = false ∧ isWordChar c = false)
    (hd : Text.isBlank d = false ∧ isWordChar d = false) :
    (scan cs).filter (isWithin first last) = scanFrom (first + c.utf8Size) inside := by
  obtain ⟨before, after, rfl, hfirst, hlast⟩ := h
  have hpos := c.utf8Size_pos
  have hpos' := d.utf8Size_pos
  -- The two marks are not between themselves.
  have hopen : isWithin first last ⟨.mark c, first⟩ = false := by simp [isWithin]
  have hclose : isWithin first last ⟨.mark d, last⟩ = false := by
    have hstop : stop ⟨.mark d, last⟩ = last + d.utf8Size := by simp [stop, text, Lexeme.text]
    simp only [isWithin, hstop, decide_eq_false_iff_not]
    omega
  rw [scan, scanFrom_append 0 (seam_of_head (head_not_word hc.2 _)), Nat.zero_add, hfirst,
    scanFrom_mark hc.1 hc.2, scanFrom_append _ (seam_of_head (head_not_word hd.2 _)), hlast,
    scanFrom_mark hd.1 hd.2, List.filter_append, List.filter_cons_of_neg (by simp [hopen]),
    List.filter_append, List.filter_cons_of_neg (by simp [hclose]),
    filter_isWithin_before (by omega), filter_isWithin_inside (by omega) (by omega),
    filter_isWithin_behind (by omega), List.nil_append, List.append_nil]

end Token

/-- The body of a class is the text between its braces without the blanks around it, and is cut into
the tokens that the source has between the braces, moved to where the body stands. -/
theorem tokenize_body (source : String) (i : Nat) (body : ClassBody)
    (hbody : (declarations source)[i]? = some (.complete body)) :
    ∃ h, (headers source.toList)[i]? = some h ∧
      Text.StandsAt ['{'] 0 h.brace source.toList ∧
      matchingBrace source.toList h.brace = some body.stop ∧ body.start = h.brace + 1 ∧
      ∃ lead trail : Blanks,
        Checked.slice body.start body.stop source.toList =
          .ok (lead.chars ++ (body.text.toList ++ trail.chars)) ∧
        Text.Flush body.text.toList ∧ Text.Flush body.text.toList.reverse ∧
        (tokenize source).filter (Token.isWithin h.brace body.stop) =
          (tokenize body.text).map
            (Token.move (body.start + Text.byteLength lead.chars + ·)) := by
  rw [declarations, List.getElem?_map, Option.map_eq_some_iff] at hbody
  obtain ⟨h, hh, hcomplete⟩ := hbody
  have hbrace := Header.brace_standsAt (List.mem_of_getElem? hh)
  obtain ⟨stop, hstop⟩ := Header.exists_stop_of_complete hcomplete
  obtain ⟨inside, hinside⟩ := matchingBrace_between hbrace hstop
  rw [Header.declaration_between hstop hinside] at hcomplete
  cases hcomplete
  obtain ⟨lead, trail, hpadded⟩ := Text.exists_trim inside
  have hflush := Text.flush_trim inside
  refine ⟨h, hh, hbrace, hstop, rfl, lead, trail, ?_⟩
  simp only [String.toList_ofList, tokenize, ← hpadded]
  refine ⟨hinside.checked_slice, hflush.1, hflush.2, ?_⟩
  rw [Token.filter_isWithin_between hinside (by decide) (by decide)]
  conv_lhs => rw [hpadded, Token.scanFrom_padded]
  exact Token.scanFrom_shift _ 0 _

/-- A class in a class, with blanks of several bytes at both ends of the outer body. -/
def paddedUnit : String := "class A \x7b\u3000é x; class B\x7bü y;\x7d\u3000\x7d z;"

theorem tokenize_paddedUnit :
    (declarations paddedUnit)[0]? =
      some (.complete ⟨"A", none, "é x; class B\x7bü y;\x7d", 9, 35⟩) ∧
    ((tokenize paddedUnit).filter (Token.isWithin 8 35)).map Token.start =
      [12, 15, 16, 18, 24, 25, 26, 29, 30, 31] ∧
    ∃ lead : Blanks, (tokenize paddedUnit).filter (Token.isWithin 8 35) =
      (tokenize "é x; class B\x7bü y;\x7d").map
        (Token.move (9 + Text.byteLength lead.chars + ·)) := by
  have hbody : (declarations paddedUnit)[0]? =
      some (.complete ⟨"A", none, "é x; class B\x7bü y;\x7d", 9, 35⟩) := by
    decide +kernel
  obtain ⟨h, -, -, -, hstart, lead, -, -, -, -, htokens⟩ := tokenize_body paddedUnit 0 _ hbody
  have hbrace : h.brace = 8 := Nat.succ.inj hstart.symm
  rw [hbrace] at htokens
  exact ⟨hbody, by decide +kernel, lead, htokens⟩

end ClassShape
