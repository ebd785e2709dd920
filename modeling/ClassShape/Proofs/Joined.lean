import ClassShape.Proofs.Checked.Comments
import ClassShape.Proofs.PoolLaws
import ClassShape.Proofs.Spacing.Unit

/-! Units one after another. Comments, tokens, headers and bodies of two units that are joined by a
newline are those of the two, as long as nothing in the first is left open: no comment, no body and
no header that the second could go on with. Only offsets move. -/
namespace ClassShape

namespace Comment

theorem splitClose_append {cs inside rest : List Char} (h : splitClose cs = some (inside, rest))
    (ds : List Char) : splitClose (cs ++ ds) = some (inside, rest ++ ds) := by
  fun_induction splitClose cs generalizing inside with
  | case1 => cases h
  | case2 cs =>
    cases h
    rfl
  | case3 c cs hnot ih =>
    obtain ⟨⟨i, r⟩, hr, he⟩ := Option.map_eq_some_iff.1 h
    cases he
    cases cs with
    | nil => cases hr
    | cons d cs =>
      rw [List.cons_append, List.cons_append, splitClose, ← List.cons_append, ih hr]
      · rfl
      · intro es hc hd
        cases hd
        exact hnot cs hc rfl

/-- A text that leaves no opening behind, and what follows it, are stripped of their blocks each on
its own. -/
theorem dropBlocks_append {cs ds : List Char} (h : ¬ ['/', '*'] <:+: dropBlocks cs)
    (hds : ds.head? ≠ some '*') : dropBlocks (cs ++ ds) = dropBlocks cs ++ dropBlocks ds := by
  fun_induction dropBlocks cs with
  | case1 => rfl
  | case2 cs inside rest hsplit ih =>
    have hrest : ¬ ['/', '*'] <:+: dropBlocks rest := fun hin =>
      h (hin.trans (List.suffix_append _ _).isInfix)
    rw [List.cons_append, List.cons_append, dropBlocks_open, splitClose_append hsplit,
      List.append_assoc, ← ih hrest]
  | case3 cs hsplit => exact absurd ⟨[], cs, rfl⟩ h
  | case4 c cs hnot ih =>
    have hrest : ¬ ['/', '*'] <:+: dropBlocks cs := fun hin =>
      h (hin.trans (List.suffix_cons _ _).isInfix)
    rw [List.cons_append, dropBlocks, ih hrest, List.cons_append]
    intro es hc he
    cases cs with
    | nil => exact hds (by simp_all)
    | cons d cs =>
      cases he
      exact hnot cs hc rfl

theorem stripChars_newline {cs : List Char} (h : ¬ ['/', '*'] <:+: stripChars cs)
    (ds : List Char) : stripChars (cs ++ '\n' :: ds) = stripChars cs ++ '\n' :: stripChars ds := by
  have hnewline : ∀ es, dropBlocks ('\n' :: es) = '\n' :: dropBlocks es := by
    intro es
    rw [dropBlocks]
    intro _ hc
    cases hc
  rw [stripChars, dropLines_append_newline, dropBlocks_append h (by simp), hnewline]
  rfl

end Comment

section Sweep
variable {α β : Type} {pattern : List α → Option (β × Nat)}

/-- A sweep over two pieces is a sweep over each, if no match that begins in the first depends on
the second or runs into it. -/
theorem sweepFrom_append {xs ys : List α}
    (hsame : ∀ zs, zs <:+ xs → zs ≠ [] → pattern (zs ++ ys) = pattern zs)
    (hfits : ∀ zs b n, zs <:+ xs → pattern zs = some (b, n) → n ≤ zs.length)
    (skip : Nat) (hskip : skip ≤ xs.length) :
    sweepFrom pattern skip (xs ++ ys) = sweepFrom pattern skip xs ++ sweepFrom pattern 0 ys := by
  induction xs generalizing skip with
  | nil =>
    obtain rfl : skip = 0 := by simpa using hskip
    rfl
  | cons x xs ih =>
    have hrest := ih (fun zs hzs => hsame zs (hzs.trans (List.suffix_cons x xs)))
      fun zs b n hzs => hfits zs b n (hzs.trans (List.suffix_cons x xs))
    cases skip with
    | succ skip => exact hrest skip (by simpa using hskip)
    | zero =>
      have hfirst : pattern (x :: (xs ++ ys)) = pattern (x :: xs) :=
        hsame (x :: xs) List.suffix_rfl (by simp)
      rw [List.cons_append]
      cases hp : pattern (x :: xs) with
      | none =>
        rw [sweepFrom_of_none hp, sweepFrom_of_none (hfirst.trans hp)]
        exact hrest 0 (Nat.zero_le _)
      | some r =>
        obtain ⟨b, n⟩ := r
        have hn := hfits (x :: xs) b n List.suffix_rfl hp
        rw [sweepFrom_of_some hp, sweepFrom_of_some (hfirst.trans hp), List.cons_append,
          hrest (n - 1) (by simp only [List.length_cons] at hn; omega)]

end Sweep

namespace Header
variable {ts us : List Token} {h : Header}

theorem At.append (hat : At ts h) (us : List Token) : At (ts ++ us) h := by
  cases hat with
  | plain hname => exact .plain hname
  | extending hname hparent => exact .extending hname hparent

theorem match?_brace (ts us : List Token) (brace : Nat) :
    match? (ts ++ ⟨.mark '}', brace⟩ :: us) = match? ts := by
  cases hm : match? ts with
  | none =>
    rw [match?_eq_none_iff] at hm ⊢
    exact fun h hat => hm h hat.of_append
  | some r =>
    obtain ⟨hat, hsize⟩ := match?_eq_some_iff.1 hm
    exact match?_eq_some_iff.2 ⟨hat.append _, hsize⟩

theorem At.size_le (hat : At ts h) : h.size ≤ ts.length := by
  cases hat with
  | plain => simp [size]
  | extending => simp [size]

def Ended (ts : List Token) : Prop := ∀ t, ts.getLast? = some t → t.lexeme = .mark '}'

theorem sweepFrom_ended (hts : Ended ts) (us : List Token) :
    sweepFrom match? 0 (ts ++ us) = sweepFrom match? 0 ts ++ sweepFrom match? 0 us := by
  apply sweepFrom_append
  · intro zs hzs hne
    obtain ⟨vs, last, rfl⟩ : ∃ vs last, zs = vs ++ [last] :=
      ⟨zs.dropLast, zs.getLast hne, (List.dropLast_append_getLast hne).symm⟩
    obtain ⟨ws, rfl⟩ := hzs
    obtain ⟨l, brace⟩ := last
    obtain rfl : l = .mark '}' := hts ⟨l, brace⟩ (by simp)
    rw [List.append_assoc, List.singleton_append, match?_brace, match?_brace]
  · intro zs h n _ hm
    obtain ⟨hat, rfl⟩ := match?_eq_some_iff.1 hm
    exact hat.size_le
  · exact Nat.zero_le _

end Header

namespace Token

theorem scanFrom_shift (k pos : Nat) (cs : List Char) :
    scanFrom (k + pos) cs = (scanFrom pos cs).map (move (k + ·)) := by
  fun_induction scanFrom pos cs with
  | case1 => simp
  | case2 pos c cs hb ih => rw [scanFrom_blank hb, Nat.add_assoc, ih]
  | case3 pos c cs hb hw word ih =>
    rw [scanFrom, if_neg hb, if_pos hw, List.map_cons, ← ih, ← Nat.add_assoc]
    rfl
  | case4 pos c cs hb hw ih =>
    rw [scanFrom_mark (by simpa using hb) (by simpa using hw), List.map_cons, ← ih, Nat.add_assoc]
    rfl

end Token

theorem closingBrace_shift (k depth pos : Nat) (cs : List Char) :
    closingBrace depth (k + pos) cs = (closingBrace depth pos cs).map (k + ·) := by
  induction cs generalizing depth pos with
  | nil => rfl
  | cons c cs ih =>
    simp only [closingBrace, Nat.add_assoc, ih]
    split
    · rfl
    · split
      · split <;> rfl
      · rfl

theorem closingBrace_append_some {depth pos stop : Nat} {cs : List Char}
    (h : closingBrace depth pos cs = some stop) (ds : List Char) :
    closingBrace depth pos (cs ++ ds) = some stop := by
  induction cs generalizing depth pos with
  | nil => cases h
  | cons c cs ih =>
    simp only [List.cons_append, closingBrace] at h ⊢
    split
    · next ho => exact ih (by simpa [ho] using h)
    · next ho =>
      split
      · next hc =>
        split
        · next hd => simpa [hc, hd] using h
        · next hd => exact ih (by simpa [hc, hd] using h)
      · next hc => exact ih (by simpa [ho, hc] using h)

namespace Text

theorem dropBytes_beyond (cs ds : List Char) (n : Nat) :
    dropBytes (byteLength cs + n) (cs ++ ds) = dropBytes n ds := by
  induction cs with
  | nil => simp
  | cons c cs ih =>
    have hpos := c.utf8Size_pos
    obtain ⟨m, hm⟩ : ∃ m, c.utf8Size + byteLength cs + n = m + 1 :=
      Nat.exists_eq_add_one.2 (by omega)
    rw [byteLength_cons, hm, List.cons_append, dropBytes, ← hm, Nat.add_assoc,
      Nat.add_sub_cancel_left, ih]

theorem slice_beyond (cs ds : List Char) (start stop : Nat) :
    slice (byteLength cs + start) (byteLength cs + stop) (cs ++ ds) = slice start stop ds := by
  rw [slice, slice, dropBytes_beyond, Nat.add_sub_add_left]

theorem Between.append {c d : Char} {start stop : Nat} {cs inside : List Char}
    (h : Between c d start stop cs inside) (ds : List Char) :
    Between c d start stop (cs ++ ds) inside := by
  obtain ⟨before, after, rfl, hstart, hstop⟩ := h
  exact ⟨before, after ++ ds, by simp, hstart, hstop⟩

end Text

namespace Header
variable {source : List Char} {h : Header}

/-- A body that closes is not touched by what follows. -/
theorem declaration_append {stop : Nat} (hbrace : Text.StandsAt ['{'] 0 h.brace source)
    (hstop : matchingBrace source h.brace = some stop) (ds : List Char) :
    h.declaration (source ++ ds) = h.declaration source := by
  obtain ⟨inside, hinside⟩ := matchingBrace_between hbrace hstop
  have hslice := hinside.slice_eq
  have hslice' := (hinside.append ds).slice_eq
  rw [show '{'.utf8Size = 1 by decide] at hslice hslice'
  have hstop' : matchingBrace (source ++ ds) h.brace = some stop := by
    obtain ⟨before, after, rfl, hbefore⟩ := hbrace
    rw [Nat.zero_add] at hbefore
    rw [matchingBrace, ← hbefore, Text.dropBytes_append] at hstop
    rw [matchingBrace, ← hbefore, List.append_assoc, Text.dropBytes_append]
    exact closingBrace_append_some hstop ds
  simp only [declaration, hstop, hstop', hslice, hslice']

/-- A class reads the same behind another text. -/
theorem record?_declaration_move (cs ds : List Char) (h : Header) :
    ((h.move (Text.byteLength cs + ·)).declaration (cs ++ ds)).record? =
      (h.declaration ds).record? := by
  have hstop : matchingBrace (cs ++ ds) (Text.byteLength cs + h.brace) =
      (matchingBrace ds h.brace).map (Text.byteLength cs + ·) := by
    rw [matchingBrace, matchingBrace, Text.dropBytes_beyond, closingBrace_shift]
  simp only [declaration, move, hstop]
  cases matchingBrace ds h.brace with
  | none => rfl
  | some stop =>
    simp only [Option.map_some, Nat.add_assoc, Text.slice_beyond]
    rfl

end Header

theorem headers_newline {cs : List Char} (h : Header.Ended (Token.scan cs)) (ds : List Char) :
    headers (cs ++ '\n' :: ds) =
      headers cs ++ (headers ds).map (Header.move (Text.byteLength (cs ++ ['\n']) + ·)) := by
  have hscan : Token.scan (cs ++ '\n' :: ds) = Token.scan cs ++
      (Token.scan ds).map (Token.move (Text.byteLength (cs ++ ['\n']) + ·)) := by
    have hfirst : Token.scan (cs ++ ['\n']) = Token.scan cs := by
      rw [Token.scan, Token.scanFrom_append 0 (seam_of_head (head_not_word (by decide) [])),
        Token.scanFrom_blank (by decide), Token.scanFrom_nil, List.append_nil, Token.scan]
    rw [List.append_cons, Token.scan, Token.scanFrom_append 0 (seam_of_last (by decide) ds),
      ← Token.scan, hfirst, Nat.add_comm, Token.scanFrom_shift]
    rfl
  rw [headers, sweep, hscan, Header.sweepFrom_ended h]
  exact congrArg (_ ++ ·) (sweepFrom_move (fun ts _ => Header.match?_move _ ts) 0)

/-- A unit without an unbalanced class has only complete declarations. -/
theorem Outcome.unclosed_notMem {ds : List Declaration}
    (h : ∀ name, .unbalanced name ∉ (ofDeclarations ds).advisories) (name : String) :
    .unclosed name ∉ ds := by
  intro hmem
  apply h name
  rw [ofDeclarations_of_ne_nil (List.ne_nil_of_mem hmem), advisories_foldl_add, List.mem_filterMap]
  obtain ⟨i, hi, hd⟩ := List.getElem_of_mem hmem
  exact ⟨(.unclosed name, i),
    List.mk_mem_zipIdx_iff_getElem?.2 (List.getElem?_eq_some_iff.2 ⟨hi, hd⟩),
    rfl⟩

/-- The records of two units in a row, the first of which leaves nothing open. -/
theorem records_newline {cs : List Char} (hended : Header.Ended (Token.scan cs))
    (hclosed : ∀ name, .unclosed name ∉ (headers cs).map (Header.declaration cs))
    (ds : List Char) :
    ((headers (cs ++ '\n' :: ds)).map (Header.declaration (cs ++ '\n' :: ds))).filterMap
        Declaration.record? =
      ((headers cs).map (Header.declaration cs)).filterMap Declaration.record? ++
        ((headers ds).map (Header.declaration ds)).filterMap Declaration.record? := by
  have hfirst : ∀ h ∈ headers cs,
      h.declaration (cs ++ '\n' :: ds) = h.declaration cs := by
    intro h hh
    cases hstop : matchingBrace cs h.brace with
    | none =>
      refine absurd (List.mem_map.2 ⟨h, hh, ?_⟩) (hclosed h.name)
      simp only [Header.declaration, hstop]
    | some stop => exact Header.declaration_append (Header.brace_standsAt hh) hstop _
  have hsecond : ∀ h ∈ headers ds,
      ((h.move (Text.byteLength (cs ++ ['\n']) + ·)).declaration (cs ++ '\n' :: ds)).record? =
        (h.declaration ds).record? := by
    intro h _
    rw [List.append_cons]
    exact Header.record?_declaration_move (cs ++ ['\n']) ds h
  rw [headers_newline hended, List.map_append, List.filterMap_append, List.map_congr_left hfirst,
    List.map_map, List.filterMap_map, List.filterMap_map, List.filterMap_map]
  exact congrArg (_ ++ ·) (List.filterMap_congr hsecond)

/-- Two units in a row are read as the two and then pooled, if the first ends with the brace of its
last class and leaves neither a comment nor a class open. -/
theorem parse_joined (first second : String)
    (hcomments : ¬ ['/', '*'] <:+: (Comment.strip first).toList)
    (hclosed : ∀ name, .unbalanced name ∉ (parse first).advisories)
    (hended : ∀ t, (tokenize (Comment.strip first)).getLast? = some t → t.lexeme = .mark '}') :
    (parse (first ++ "\n" ++ second)).classes =
      pool ((parse first).classes ++ (parse second).classes) := by
  have hstrip : (Comment.strip (first ++ "\n" ++ second)).toList =
      (Comment.strip first).toList ++ '\n' :: (Comment.strip second).toList := by
    rw [Comment.toList_strip] at hcomments ⊢
    rw [Comment.toList_strip, Comment.toList_strip, String.toList_append, String.toList_append,
      List.append_assoc]
    exact Comment.stripChars_newline hcomments _
  have hrecords := records_newline hended (Outcome.unclosed_notMem hclosed)
    (Comment.strip second).toList
  rw [parse, parse, parse, Outcome.classes_ofDeclarations, Outcome.classes_ofDeclarations,
    Outcome.classes_ofDeclarations, ← Pool.pool_append, declarations, hstrip, hrecords]
  rfl

def closedUnit : String :=
  "class Box \x7b int n; \x7d // done \x7b\nclass Pair extends Box \x7b /* never \x7d */ \x7d"

def openUnit : String := "*/ class Box \x7b String s; \x7d class Open \x7b"

theorem parse_closedUnit_openUnit :
    (parse (closedUnit ++ "\n" ++ openUnit)).classes.map (fun c => (c.name, c.attributes.length)) =
      [("Box", 1), ("Pair", 0)] ∧
    (parse (closedUnit ++ "\n" ++ openUnit)).classes =
      pool ((parse closedUnit).classes ++ (parse openUnit).classes) := by
  have hadvisories : (parse closedUnit).advisories = [] := by decide +kernel
  have hlast : (tokenize (Comment.strip closedUnit)).getLast?.map Token.lexeme =
      some (.mark '}') := by
    decide +kernel
  refine ⟨by decide +kernel, parse_joined closedUnit openUnit (by decide +kernel) ?_ ?_⟩
  · simp [hadvisories]
  · intro t ht
    simpa [ht] using hlast

end ClassShape
