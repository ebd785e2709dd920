import ClassShape.Proofs.Checked.Comments

/-! Comments in one pass. A scanner that reads from left to right cuts a text into characters to
copy, line comments and block comments. Removing line comments first and block comments second
gives the same result wherever no `//` stands inside a block comment. -/
namespace ClassShape.Comment

inductive Piece where
  | char (c : Char)
  /-- A line comment; the newline is not part of it. -/
  | line (inside : List Char)
  | block (inside : List Char)
  /-- An opening that is never closed, with all that follows it. -/
  | unclosed (rest : List Char)

namespace Piece

def text : Piece → List Char
  | char c => [c]
  | line inside => '/' :: '/' :: inside
  | block inside => '/' :: '*' :: (inside ++ ['*', '/'])
  | unclosed rest => '/' :: '*' :: rest

def kept : Piece → List Char
  | char c => [c]
  | line _ => []
  | block inside => inside.filter (· == '\n')
  | unclosed rest => '/' :: '*' :: rest

def isBlock : Piece → Bool
  | block _ => true
  | unclosed _ => true
  | _ => false

end Piece

def pieces : List Char → List Piece
  | [] => []
  | '/' :: '/' :: cs => .line (cs.takeWhile (· != '\n')) :: pieces (cs.dropWhile (· != '\n'))
  | '/' :: '*' :: cs =>
    match _h : splitClose cs with
    | some (inside, rest) => .block inside :: pieces rest
    | none => [.unclosed cs]
  | c :: cs => .char c :: pieces cs
termination_by cs => cs.length
decreasing_by
  · have := Text.length_dropWhile_le (· != '\n') cs
    simp only [List.length_cons]
    omega
  · have := splitClose_length _h
    simp only [List.length_cons]
    omega
  · simp

/-- The scanner's rules. A character is copied where no comment opens, a line comment ends before
the next newline, and a block comment at the nearest closing. -/
inductive Cut : List Char → List Piece → Prop where
  | nil : Cut [] []
  | char {c : Char} {rest : List Char} {ps : List Piece} (hline : ¬ ['/', '/'] <+: c :: rest)
    (hblock : ¬ ['/', '*'] <+: c :: rest) (h : Cut rest ps) : Cut (c :: rest) (.char c :: ps)
  | line {inside rest : List Char} {ps : List Piece} (hinside : '\n' ∉ inside)
    (hrest : ∀ c, rest.head? = some c → c = '\n') (h : Cut rest ps) :
    Cut ('/' :: '/' :: (inside ++ rest)) (.line inside :: ps)
  | block {inside rest : List Char} {ps : List Piece}
    (hnearest : ¬ ['*', '/'] <:+: inside ++ ['*']) (h : Cut rest ps) :
    Cut ('/' :: '*' :: (inside ++ '*' :: '/' :: rest)) (.block inside :: ps)
  | unclosed {rest : List Char} (hrest : ¬ ['*', '/'] <:+: rest) :
    Cut ('/' :: '*' :: rest) [.unclosed rest]

def onePass (source : String) : String :=
  String.ofList ((pieces source.toList).flatMap Piece.kept)

/-- No `//` starts inside a block comment, at its last slash or in one that is never closed. -/
def Undisturbed (ps : List Piece) : Prop :=
  ∀ before p after, ps = before ++ p :: after → p.isBlock = true →
    ∀ i < p.text.length, ¬ ['/', '/'] <+: (p.text ++ after.flatMap Piece.text).drop i

theorem undisturbed_nil : Undisturbed [] := by
  intro before p after h
  simp at h

theorem undisturbed_cons {p : Piece} {ps : List Piece} :
    Undisturbed (p :: ps) ↔
      (p.isBlock = true →
        ∀ i < p.text.length, ¬ ['/', '/'] <+: (p.text ++ ps.flatMap Piece.text).drop i) ∧
      Undisturbed ps := by
  constructor
  · intro h
    refine ⟨h [] p ps rfl, fun before q after hps => ?_⟩
    exact h (p :: before) q after (by rw [hps, List.cons_append])
  · intro h before q after hps
    cases before with
    | nil =>
      obtain ⟨rfl, rfl⟩ := List.cons.inj hps
      exact h.1
    | cons b before => exact h.2 before q after (List.cons.inj hps).2

instance decidableUndisturbed : (ps : List Piece) → Decidable (Undisturbed ps)
  | [] => isTrue undisturbed_nil
  | _ :: ps =>
    have := decidableUndisturbed ps
    decidable_of_iff _ undisturbed_cons.symm

/-- A comment is closed at the nearest place. -/
theorem splitClose_nearest {cs inside rest : List Char}
    (h : splitClose cs = some (inside, rest)) : ¬ ['*', '/'] <:+: inside ++ ['*'] := by
  fun_induction splitClose cs generalizing inside with
  | case1 => simp at h
  | case2 cs =>
    obtain ⟨rfl, rfl⟩ := Prod.mk.inj (Option.some.inj h)
    decide
  | case3 c cs hnot ih =>
    obtain ⟨⟨i, r⟩, hr, he⟩ := Option.map_eq_some_iff.1 h
    obtain ⟨rfl, rfl⟩ := Prod.mk.inj he
    rw [List.cons_append, Text.pair_infix_cons, not_or]
    refine ⟨?_, ih hr⟩
    intro hclose
    obtain ⟨hc, hslash⟩ := hclose
    cases i with
    | nil => simp at hslash
    | cons d i =>
      obtain rfl : d = '/' := by simpa using hslash
      exact hnot _ hc (splitClose_eq_some hr)

theorem splitClose_of_nearest {inside : List Char} (h : ¬ ['*', '/'] <:+: inside ++ ['*'])
    (rest : List Char) : splitClose (inside ++ '*' :: '/' :: rest) = some (inside, rest) := by
  induction inside with
  | nil => rfl
  | cons c inside ih =>
    rw [List.cons_append, Text.pair_infix_cons, not_or] at h
    have hopen : ∀ ds, c = '*' → inside ++ '*' :: '/' :: rest = '/' :: ds → False := by
      intro ds hc hds
      cases inside with
      | nil => simp at hds
      | cons d inside =>
        obtain rfl : d = '/' := (List.cons.inj hds).1
        exact h.1 ⟨hc, rfl⟩
    rw [List.cons_append, splitClose.eq_3 _ _ hopen, ih h.2, Option.map_some]

theorem splitClose_of_open {cs : List Char} (h : ¬ ['*', '/'] <:+: cs) : splitClose cs = none := by
  cases hsplit : splitClose cs with
  | none => rfl
  | some r =>
    refine absurd ⟨r.1, r.2, ?_⟩ h
    rw [splitClose_eq_some hsplit]
    simp

theorem cut_pieces (cs : List Char) : Cut cs (pieces cs) := by
  fun_induction pieces cs with
  | case1 => exact .nil
  | case2 cs ih =>
    have hinside : '\n' ∉ cs.takeWhile (· != '\n') := by
      intro hmem
      simpa using List.mem_takeWhile_imp hmem
    have hrest : ∀ c, (cs.dropWhile (· != '\n')).head? = some c → c = '\n' := by
      intro c hc
      simpa [hc] using List.head?_dropWhile_not (· != '\n') cs
    simpa using Cut.line hinside hrest ih
  | case3 cs inside rest hsplit ih =>
    rw [splitClose_eq_some hsplit]
    exact .block (splitClose_nearest hsplit) ih
  | case4 cs hsplit => exact .unclosed (splitClose_eq_none hsplit)
  | case5 c cs hline hblock ih =>
    apply Cut.char _ _ ih
    · intro hprefix
      obtain ⟨ds, hds⟩ := hprefix
      exact hline ds (List.cons.inj hds).1.symm (List.cons.inj hds).2.symm
    · intro hprefix
      obtain ⟨ds, hds⟩ := hprefix
      exact hblock ds (List.cons.inj hds).1.symm (List.cons.inj hds).2.symm

/-- A part of the text in which no line comment starts is passed over. -/
theorem dropLines_append {xs ys : List Char}
    (h : ∀ i < xs.length, ¬ ['/', '/'] <+: (xs ++ ys).drop i) :
    dropLines (xs ++ ys) = xs ++ dropLines ys := by
  induction xs with
  | nil => rfl
  | cons x xs ih =>
    have hfirst : ∀ zs, x = '/' → xs ++ ys = '/' :: zs → False := by
      intro zs hx hzs
      exact h 0 (by simp) ⟨zs, by simp [hx, hzs]⟩
    have hrest : ∀ i < xs.length, ¬ ['/', '/'] <+: (xs ++ ys).drop i := fun i hi =>
      h (i + 1) (by simpa using hi)
    rw [List.cons_append, dropLines.eq_3 _ _ hfirst, ih hrest, List.cons_append]

namespace Cut
variable {cs : List Char} {ps : List Piece}

/-- The pieces are the text, cut. -/
theorem text_eq (h : Cut cs ps) : ps.flatMap Piece.text = cs := by
  induction h with
  | nil => rfl
  | char _ _ _ ih => simp [Piece.text, ih]
  | line _ _ _ ih => simp [Piece.text, ih]
  | block _ _ ih => simp [Piece.text, ih]
  | unclosed _ => simp [Piece.text]

/-- The two passes do what the scanner does, piece by piece. -/
theorem dropBlocks_dropLines (hcut : Cut cs ps) (h : Undisturbed ps) :
    dropBlocks (dropLines cs) = ps.flatMap Piece.kept := by
  induction hcut with
  | nil => simp [dropLines, dropBlocks]
  | @char c rest ps hline hblock hcut ih =>
    have hline' : ∀ ds, c = '/' → rest = '/' :: ds → False := fun ds hc hds =>
      hline ⟨ds, by rw [hc, hds]; rfl⟩
    -- The second pass sees no opening here either: the first one can only bring a slash forward.
    have hopen : ∀ ds, c = '/' → dropLines rest = '*' :: ds → False := by
      intro ds hc hds
      have hhead := head?_dropLines rest
      cases rest with
      | nil => simp [dropLines] at hds
      | cons d rest =>
        rw [hds] at hhead
        cases hhead with
        | inl hstar => exact hblock ⟨rest, by simpa [hc] using hstar⟩
        | inr hslash => exact hline' rest hc (by simpa using hslash)
    rw [dropLines.eq_3 _ _ hline', dropBlocks.eq_3 _ _ hopen, ih (undisturbed_cons.1 h).2,
      List.flatMap_cons]
    rfl
  | @line inside rest ps hinside hrest hcut ih =>
    have hpassed : ∀ c ∈ inside, (c != '\n') = true := by
      intro c hc
      simpa using fun he : c = '\n' => hinside (he ▸ hc)
    have hstop : rest.dropWhile (· != '\n') = rest := by
      cases rest with
      | nil => rfl
      | cons c rest => simp [hrest c rfl]
    rw [dropLines, List.dropWhile_append_of_pos hpassed, hstop, ih (undisturbed_cons.1 h).2,
      List.flatMap_cons]
    rfl
  | @block inside rest ps hnearest hcut ih =>
    obtain ⟨hblock, hrest⟩ := undisturbed_cons.1 h
    rw [hcut.text_eq] at hblock
    have hlines := dropLines_append (hblock rfl)
    simp only [Piece.text, List.cons_append, List.append_assoc, List.nil_append] at hlines
    rw [hlines, dropBlocks_open, splitClose_of_nearest hnearest, List.flatMap_cons, ← ih hrest]
    rfl
  | @unclosed rest hrest =>
    have hlines := dropLines_append ((undisturbed_cons.1 h).1 rfl)
    simp only [Piece.text, List.flatMap_nil, List.append_nil, dropLines] at hlines
    rw [hlines, dropBlocks_open, splitClose_of_open hrest]
    simp [Piece.kept]

end Cut

/-- Where no line comment starts inside a block comment, the order of the two passes does not
matter: the source is stripped as by a scanner that cuts it by its rules in one pass. -/
theorem strip_eq_onePass (source : String) :
    Cut source.toList (pieces source.toList) ∧
    (Undisturbed (pieces source.toList) → strip source = onePass source) := by
  have hcut := cut_pieces source.toList
  refine ⟨hcut, fun h => ?_⟩
  rw [strip, stripChars, hcut.dropBlocks_dropLines h, onePass]

/-- A line comment that hides an opening, block comments over two lines and with a slash behind the
opening, a closing too many, and an opening that is never closed. -/
def mixedComments : String := "a // /* b\n/* c\nd */ e /*/ f */*/ /* g"

theorem strip_mixedComments :
    Undisturbed (pieces mixedComments.toList) ∧
    onePass mixedComments = "a \n\n e */ /* g" ∧ strip mixedComments = "a \n\n e */ /* g" := by
  have hundisturbed : Undisturbed (pieces mixedComments.toList) := by decide +kernel
  have honePass : onePass mixedComments = "a \n\n e */ /* g" := by decide +kernel
  exact ⟨hundisturbed, honePass, ((strip_eq_onePass _).2 hundisturbed).trans honePass⟩

end ClassShape.Comment
