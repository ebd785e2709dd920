import ClassShape.Proofs.Attributes
import ClassShape.Proofs.Joined
import Mathlib.Order.Interval.Set.Basic

/-! Classes inside classes. Where the brace of one class stands between the braces of another, the
whole body does: the two spans never cross. So the inner class is closed if the outer one is, and
the attributes of the inner class are attributes of the outer one, next to each other. -/
namespace ClassShape

namespace Text

theorem exists_trim (cs : List Char) :
    ∃ lead trail : Blanks, cs = lead.chars ++ (trim cs ++ trail.chars) := by
  have hlead : ∀ c ∈ cs.takeWhile isBlank, isBlank c = true := fun c => List.mem_takeWhile_imp
  have htrail : ∀ c ∈ ((cs.dropWhile isBlank).reverse.takeWhile isBlank).reverse,
      isBlank c = true := by
    intro c hc
    exact List.mem_takeWhile_imp (List.mem_reverse.1 hc)
  have hend : cs.dropWhile isBlank =
      trim cs ++ ((cs.dropWhile isBlank).reverse.takeWhile isBlank).reverse := by
    rw [trim, trimEnd, ← List.reverse_append, List.takeWhile_append_dropWhile, List.reverse_reverse]
  refine ⟨⟨_, hlead⟩, ⟨_, htrail⟩, ?_⟩
  rw [← hend, List.takeWhile_append_dropWhile]

theorem trim_isInfix (cs : List Char) : trim cs <:+: cs := by
  obtain ⟨lead, trail, hcs⟩ := exists_trim cs
  exact ⟨lead.chars, trail.chars, by rw [List.append_assoc, ← hcs]⟩

theorem dropWhile_mark {c : Char} (hc : isBlank c = false) (cs ds : List Char) :
    (cs ++ c :: ds).dropWhile isBlank = cs.dropWhile isBlank ++ c :: ds := by
  rw [List.dropWhile_append, List.dropWhile_cons_of_neg (by simp [hc])]
  split
  · rename_i hnil
    rw [List.isEmpty_iff.1 hnil, List.nil_append]
  · rfl

/-- Trimming stops at the first and at the last character that is no blank. -/
theorem trim_between {c d : Char} (hc : isBlank c = false) (hd : isBlank d = false)
    (before inside after : List Char) :
    trim (before ++ c :: (inside ++ d :: after)) =
      before.dropWhile isBlank ++ c :: (inside ++ d :: trimEnd after) := by
  have hend : ∀ cs, trimEnd (cs ++ d :: after) = cs ++ d :: trimEnd after := by
    intro cs
    have hreverse : (cs ++ d :: after).reverse = after.reverse ++ d :: cs.reverse := by simp
    rw [trimEnd, hreverse, dropWhile_mark hd, trimEnd]
    simp
  have hsplit := hend (before.dropWhile isBlank ++ c :: inside)
  rw [List.append_assoc, List.append_assoc] at hsplit
  rw [trim, dropWhile_mark hc]
  exact hsplit

/-- A character that stands within a part of a text is one of that part. -/
theorem StandsAt.within {c : Char} {n : Nat} {as bs cs : List Char}
    (h : StandsAt [c] 0 n (as ++ (bs ++ cs))) (hle : byteLength as ≤ n)
    (hlt : n < byteLength as + byteLength bs) :
    ∃ us vs, bs = us ++ c :: vs ∧ n = byteLength as + byteLength us := by
  cases h.char_append with
  | inl has =>
    have := has.char_lt
    omega
  | inr hrest =>
    cases hrest.char_append with
    | inl hbs =>
      obtain ⟨us, vs, rfl, hn⟩ := hbs
      exact ⟨us, vs, rfl, by omega⟩
    | inr hcs =>
      have := hcs.le
      omega

theorem StandsAt.char_unique {c d : Char} {n : Nat} {cs : List Char} (hc : StandsAt [c] 0 n cs)
    (hd : StandsAt [d] 0 n cs) : c = d := by
  obtain ⟨as, bs, rfl, has⟩ := hc
  have hpos := c.utf8Size_pos
  obtain ⟨us, vs, hsplit, -⟩ := hd.within (by omega)
    (by rw [byteLength_cons, byteLength_nil]; omega)
  rcases List.singleton_eq_append_iff.1 hsplit with ⟨-, h⟩ | ⟨-, h⟩
  · exact (List.cons.inj h).1.symm
  · cases h

namespace Between
variable {c d : Char} {start stop : Nat} {cs : List Char}

/-- A character that stands between two marks divides the text between them. -/
theorem split {e : Char} {n : Nat} {body : List Char} (h : Between c d start stop cs body)
    (hn : StandsAt [e] 0 n cs) (hle : start + c.utf8Size ≤ n) (hlt : n < stop) :
    ∃ us vs, body = us ++ e :: vs ∧ n = start + c.utf8Size + byteLength us := by
  obtain ⟨before, after, rfl, rfl, rfl⟩ := h
  have hlength : byteLength (before ++ [c]) = byteLength before + c.utf8Size := by simp
  rw [List.append_cons] at hn
  rw [← hlength] at hle hlt ⊢
  exact hn.within hle hlt

/-- Two marks between two others of their kind. -/
theorem inner {lead inside trail : List Char}
    (h : Between c d start stop cs (lead ++ c :: (inside ++ d :: trail))) :
    ∃ innerStop, Between c d (start + c.utf8Size + byteLength lead) innerStop cs inside ∧
      innerStop < stop := by
  obtain ⟨before, after, rfl, rfl, rfl⟩ := h
  refine ⟨_, ⟨before ++ c :: lead, trail ++ d :: after, by simp, by simp [Nat.add_assoc], rfl⟩, ?_⟩
  have := d.utf8Size_pos
  simp only [byteLength_append, byteLength_cons]
  omega

end Between
end Text

/-- Blanks around a text only move its tokens. -/
theorem Token.scanFrom_padded (lead trail : Blanks) (pos : Nat) (cs : List Char) :
    scanFrom pos (lead.chars ++ (cs ++ trail.chars)) =
      scanFrom (pos + Text.byteLength lead.chars) cs := by
  have hseam : Seam cs trail.chars := by
    have hempty : ∀ c, ([] : List Char).head? = some c → isWordChar c = false := by simp
    apply seam_of_head
    simpa using trail.head_not_word hempty
  have htrail : ∀ pos, scanFrom pos trail.chars = [] := by
    intro pos
    have hscan := scanFrom_blanks trail pos []
    rwa [List.append_nil, scanFrom_nil] at hscan
  rw [scanFrom_blanks, scanFrom_append _ hseam, htrail, List.append_nil]

theorem lexemes_trim (cs : List Char) : lexemes (Text.trim cs) = lexemes cs := by
  obtain ⟨lead, trail, hcs⟩ := Text.exists_trim cs
  conv_rhs => rw [hcs, lexemes, Token.scan, Token.scanFrom_padded]
  rw [Token.map_lexeme_scanFrom]

/-- A brace inside a balanced text is closed inside it. -/
theorem Balanced.exists_closing_inside {before after : List Char}
    (h : Balanced (before ++ '{' :: after)) :
    ∃ inside rest, after = inside ++ '}' :: rest ∧ Balanced inside := by
  rcases exists_closing after with hclosed | hopen
  · exact hclosed
  · have hbefore := h.opened before (List.prefix_append _ _)
    have hafter := hopen after List.prefix_rfl
    have hequal := h.equal
    rw [List.count_append, List.count_append, List.count_cons_self,
      List.count_cons_of_ne (by decide)] at hequal
    omega

/-- The brace that closes another is the one behind a balanced text. -/
theorem exists_balanced_between {source : List Char} {brace stop : Nat}
    (h : Text.StandsAt ['{'] 0 brace source) (hstop : matchingBrace source brace = some stop) :
    ∃ inside, Balanced inside ∧ Text.Between '{' '}' brace stop source inside := by
  obtain ⟨before, after, rfl, rfl⟩ := h
  rw [List.singleton_append, Nat.zero_add] at hstop ⊢
  rcases matchingBrace_cases before after with ⟨inside, rest, rfl, hinside, hclose⟩ | ⟨-, hnone⟩
  · obtain rfl := Option.some.inj (hclose.symm.trans hstop)
    exact ⟨inside, hinside, before, rest, rfl, rfl, rfl⟩
  · cases hnone.symm.trans hstop

theorem Balanced.matchingBrace_eq {source inside : List Char} {brace stop : Nat}
    (h : Balanced inside) (hinside : Text.Between '{' '}' brace stop source inside) :
    matchingBrace source brace = some stop := by
  obtain ⟨before, after, rfl, rfl, rfl⟩ := hinside
  exact h.neutral.matchingBrace_eq before after

/-- A brace between another and its match is closed between them. -/
theorem exists_inside {source : List Char} {outer inner stop : Nat}
    (houter : Text.StandsAt ['{'] 0 outer source) (hinner : Text.StandsAt ['{'] 0 inner source)
    (hstop : matchingBrace source outer = some stop) (hlt : outer < inner) (hle : inner ≤ stop) :
    ∃ lead inside trail innerStop,
      Text.Between '{' '}' outer stop source (lead ++ '{' :: (inside ++ '}' :: trail)) ∧
      Text.Between '{' '}' inner innerStop source inside ∧
      matchingBrace source inner = some innerStop ∧ innerStop < stop := by
  have hbefore : inner < stop := by
    have hclose := (matchingBrace_standsAt houter hstop).2
    refine lt_of_le_of_ne hle fun he => ?_
    exact absurd (hinner.char_unique (he ▸ hclose)) (by decide)
  obtain ⟨body, hbody, hbetween⟩ := exists_balanced_between houter hstop
  obtain ⟨lead, after, rfl, rfl⟩ := hbetween.split hinner hlt hbefore
  obtain ⟨inside, trail, rfl, hinside⟩ := hbody.exists_closing_inside
  obtain ⟨innerStop, hin, hend⟩ := hbetween.inner
  exact ⟨lead, inside, trail, innerStop, hbetween, hin, hinside.matchingBrace_eq hin, hend⟩

namespace Attribute

/-- No attribute runs over a mark that is no semicolon. -/
theorem unmodified?_mark {c : Char} (hc : c ≠ ';') (ls ms : List Lexeme) :
    unmodified? (ls ++ .mark c :: ms) = unmodified? ls := by
  obtain _ | ⟨l₀, _ | ⟨l₁, _ | ⟨l₂, ls⟩⟩⟩ := ls
  · rfl
  · cases l₀ <;> rfl
  · cases l₀ <;> cases l₁ <;> simp [unmodified?, hc]
  · ext r
    rw [unmodified?_eq_some_iff, unmodified?_eq_some_iff]
    rfl

theorem match?_mark {c : Char} (hc : c ≠ ';') (ls ms : List Lexeme) :
    match? (ls ++ .mark c :: ms) = match? ls := by
  cases ls with
  | nil => rfl
  | cons first rest =>
    have hfirst := unmodified?_mark hc (first :: rest) ms
    rw [List.cons_append] at hfirst
    rw [List.cons_append, match?, match?, unmodified?_mark hc, hfirst]

theorem length_of_match? {ls : List Lexeme} {a : Attribute} {n : Nat}
    (h : match? ls = some (a, n)) : n ≤ ls.length := by
  have hthree : ∀ {ms : List Lexeme} {r}, unmodified? ms = some r → 3 ≤ ms.length := by
    intro ms r hr
    obtain ⟨⟨-, -, hmark⟩, -⟩ := unmodified?_eq_some_iff.1 hr
    exact (List.getElem?_eq_some_iff.1 hmark).1
  cases ls with
  | nil => cases h
  | cons first rest =>
    rw [match?] at h
    split at h
    · obtain ⟨r, hr, he⟩ := Option.map_eq_some_iff.1 h
      cases he
      exact Nat.succ_le_succ (hthree hr)
    · obtain ⟨r, hr, he⟩ := Option.map_eq_some_iff.1 h
      cases he
      exact hthree hr

/-- The attributes on the two sides of a mark that is no semicolon are found apart. -/
theorem sweep_mark {c : Char} (hc : c ≠ ';') (ls ms : List Lexeme) :
    sweep match? (ls ++ .mark c :: ms) = sweep match? ls ++ sweep match? ms := by
  have hrest : sweepFrom match? 0 (.mark c :: ms) = sweepFrom match? 0 ms :=
    sweepFrom_of_none (match?_mark hc [] ms)
  rw [sweep, sweep, sweep, ← hrest]
  exact sweepFrom_append (fun zs _ _ => match?_mark hc zs ms) (fun zs a n _ => length_of_match?) 0
    (Nat.zero_le _)

end Attribute

theorem lexemes_braced (lead inside trail : List Char) :
    lexemes (lead ++ '{' :: (inside ++ '}' :: trail)) =
      lexemes lead ++ .mark '{' :: (lexemes inside ++ .mark '}' :: lexemes trail) := by
  rw [lexemes_append (seam_of_head (head_not_word (by decide) _)),
    lexemes_mark (by decide) (by decide),
    lexemes_append (seam_of_head (head_not_word (by decide) _)),
    lexemes_mark (by decide) (by decide)]

theorem Attribute.scan_trim (body : List Char) : scan (Text.trim body) = scan body :=
  congrArg (sweep match?) (lexemes_trim body)

/-- The attributes between two braces are attributes of the whole, next to each other. -/
theorem Attribute.scan_isInfix (lead inside trail : List Char) :
    scan inside <:+: scan (lead ++ '{' :: (inside ++ '}' :: trail)) := by
  have hscan : scan (lead ++ '{' :: (inside ++ '}' :: trail)) =
      scan lead ++ (scan inside ++ scan trail) := by
    rw [scan, ← lexemes, lexemes_braced, sweep_mark (by decide), sweep_mark (by decide)]
    rfl
  exact ⟨scan lead, scan trail, by rw [hscan, List.append_assoc]⟩

namespace Header
variable {source : List Char} {g h : Header} {n : Nat}

/-- The offsets from the brace of a header to the one that closes it, or to the end of the source
if there is none. -/
def span (source : List Char) (h : Header) : Set Nat :=
  match h.declaration source with
  | .complete body => Set.Icc h.brace body.stop
  | .unclosed _ => Set.Ico h.brace (Text.byteLength source)

theorem span_of_some {stop : Nat} (hstop : matchingBrace source h.brace = some stop) :
    h.span source = Set.Icc h.brace stop := by
  simp only [span, declaration, hstop]

theorem span_of_none (hnone : matchingBrace source h.brace = none) :
    h.span source = Set.Ico h.brace (Text.byteLength source) := by
  simp only [span, declaration, hnone]

theorem span_congr (heq : g.brace = h.brace) : g.span source = h.span source := by
  cases hstop : matchingBrace source g.brace with
  | none => rw [span_of_none hstop, span_of_none (heq ▸ hstop), heq]
  | some stop => rw [span_of_some hstop, span_of_some (heq ▸ hstop), heq]

theorem brace_le_of_mem_span (hn : n ∈ h.span source) : h.brace ≤ n := by
  unfold span at hn
  split at hn
  · exact hn.1
  · exact hn.1

theorem lt_of_mem_span (hh : Text.StandsAt ['{'] 0 h.brace source) (hn : n ∈ h.span source) :
    n < Text.byteLength source := by
  cases hstop : matchingBrace source h.brace with
  | none =>
    rw [span_of_none hstop] at hn
    exact hn.2
  | some stop =>
    rw [span_of_some hstop] at hn
    have hend := (matchingBrace_standsAt hh hstop).2.isBoundary_end.le
    rw [show Text.byteLength ['}'] = 1 by decide] at hend
    have := hn.2
    omega

/-- Of two spans, the one that begins later lies inside the other or behind it. -/
theorem span_disjoint_or_subset (hg : Text.StandsAt ['{'] 0 g.brace source)
    (hh : Text.StandsAt ['{'] 0 h.brace source) (hlt : g.brace < h.brace) :
    (∀ n ∈ g.span source, n ∉ h.span source) ∨ h.span source ⊆ g.span source := by
  cases hstop : matchingBrace source g.brace with
  | none =>
    right
    intro n hn
    rw [span_of_none hstop]
    exact ⟨hlt.le.trans (brace_le_of_mem_span hn), lt_of_mem_span hh hn⟩
  | some stop =>
    rw [span_of_some hstop]
    by_cases hle : h.brace ≤ stop
    · right
      obtain ⟨-, -, -, innerStop, -, -, hclose, hbefore⟩ := exists_inside hg hh hstop hlt hle
      rw [span_of_some hclose]
      exact Set.Icc_subset_Icc hlt.le hbefore.le
    · left
      intro n hn hn'
      have := brace_le_of_mem_span hn'
      have := hn.2
      omega

theorem span_laminar (hg : Text.StandsAt ['{'] 0 g.brace source)
    (hh : Text.StandsAt ['{'] 0 h.brace source) :
    (∀ n ∈ g.span source, n ∉ h.span source) ∨ g.span source ⊆ h.span source ∨
      h.span source ⊆ g.span source := by
  rcases lt_trichotomy g.brace h.brace with hlt | heq | hgt
  · exact (span_disjoint_or_subset hg hh hlt).imp_right Or.inr
  · exact Or.inr (Or.inl (span_congr heq).subset)
  · exact (span_disjoint_or_subset hh hg hgt).imp (fun hd n hn hn' => hd n hn' hn) Or.inl

/-- The body of a class is the trimmed text between its braces. -/
theorem declaration_between {stop : Nat} {inside : List Char}
    (hstop : matchingBrace source h.brace = some stop)
    (hinside : Text.Between '{' '}' h.brace stop source inside) :
    h.declaration source = .complete
      ⟨h.name, h.parent, String.ofList (Text.trim inside), h.brace + 1, stop⟩ := by
  have hslice := hinside.slice_eq
  rw [show '{'.utf8Size = 1 by decide] at hslice
  simp only [declaration, hstop, hslice]

theorem exists_stop_of_complete {body : ClassBody} (hbody : h.declaration source = .complete body) :
    ∃ stop, matchingBrace source h.brace = some stop := by
  cases hstop : matchingBrace source h.brace with
  | none => simp [declaration, hstop] at hbody
  | some stop => exact ⟨stop, rfl⟩

/-- A class whose brace stands in the span of a closed class is closed too, and is a part of it. -/
theorem exists_inner {outer : ClassBody} (hg : Text.StandsAt ['{'] 0 g.brace source)
    (hh : Text.StandsAt ['{'] 0 h.brace source) (houter : g.declaration source = .complete outer)
    (hin : h.brace ∈ g.span source) :
    ∃ inner, h.declaration source = .complete inner ∧ inner.text.toList <:+: outer.text.toList ∧
      attributes inner.text <:+: attributes outer.text := by
  obtain ⟨stop, hstop⟩ := exists_stop_of_complete houter
  rw [span_of_some hstop] at hin
  rcases hin.1.eq_or_lt with heq | hlt
  · obtain ⟨inside, hinside⟩ := matchingBrace_between hg hstop
    rw [declaration_between hstop hinside] at houter
    rw [heq] at hstop hinside
    cases houter
    exact ⟨_, declaration_between hstop hinside, List.infix_rfl, List.infix_rfl⟩
  · obtain ⟨lead, inside, trail, innerStop, hbetween, hinside, hclose, -⟩ :=
      exists_inside hg hh hstop hlt hin.2
    rw [declaration_between hstop hbetween] at houter
    cases houter
    refine ⟨_, declaration_between hclose hinside, ?_, ?_⟩
    · simp only [String.toList_ofList]
      rw [Text.trim_between (by decide) (by decide)]
      have hpart : inside <:+: lead.dropWhile Text.isBlank ++
          '{' :: (inside ++ '}' :: Text.trimEnd trail) :=
        ⟨lead.dropWhile Text.isBlank ++ ['{'], '}' :: Text.trimEnd trail, by simp⟩
      exact (Text.trim_isInfix inside).trans hpart
    · simp only [attributes, String.toList_ofList, Attribute.scan_trim]
      exact Attribute.scan_isInfix lead inside trail

end Header

/-- The spans of two classes are disjoint, or one contains the other. A class whose brace stands in
the span of a closed class, as it does if its header stands there, is closed as well; its body is a
part of the other's body, and its attributes are among the other's, next to each other. -/
theorem declarations_nested (source : String) :
    declarations source = (headers source.toList).map (Header.declaration source.toList) ∧
    ∀ g ∈ headers source.toList, ∀ h ∈ headers source.toList,
      ((∀ n ∈ g.span source.toList, n ∉ h.span source.toList) ∨
        g.span source.toList ⊆ h.span source.toList ∨
        h.span source.toList ⊆ g.span source.toList) ∧
      (∀ outer, g.declaration source.toList = .complete outer → h.brace ∈ g.span source.toList →
        ∃ inner, h.declaration source.toList = .complete inner ∧
          inner.text.toList <:+: outer.text.toList ∧
          attributes inner.text <:+: attributes outer.text) ∧
      (∀ outer name, g.declaration source.toList = .complete outer →
        h.declaration source.toList = .unclosed name → h.brace ∉ g.span source.toList) := by
  refine ⟨rfl, fun g hg h hh => ?_⟩
  have hgat := Header.brace_standsAt hg
  have hhat := Header.brace_standsAt hh
  refine ⟨Header.span_laminar hgat hhat, fun outer => Header.exists_inner hgat hhat, ?_⟩
  intro outer name houter hname hin
  obtain ⟨inner, hinner, -⟩ := Header.exists_inner hgat hhat houter hin
  cases hname.symm.trans hinner

/-- The attribute of a class inside another stands between the attributes around it. -/
example : (parse "class A \x7b int x; class B \x7b char c; \x7d int y; \x7d").classes.map
    (fun r => r.attributes.map Attribute.name) = [["x", "c", "y"], ["c"]] := by
  decide +kernel

end ClassShape
