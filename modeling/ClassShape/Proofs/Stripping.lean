import ClassShape.SourceUnit
import Mathlib.Data.List.Infix

/-! What stripping leaves. The result has no comment of either kind, and a text without comments
is left as it is; so a second pass finds nothing to do. -/
namespace ClassShape

theorem Text.pair_infix_cons {a b c : Char} {cs : List Char} :
    [a, b] <:+: c :: cs ↔ (c = a ∧ cs.head? = some b) ∨ [a, b] <:+: cs := by
  rw [List.infix_cons_iff]
  cases cs with
  | nil => simp
  | cons d cs => simp [List.cons_prefix_cons, eq_comm]

namespace Comment

def HasLine (cs : List Char) : Prop := ['/', '/'] <:+: cs

def HasBlock (cs : List Char) : Prop :=
  ∃ before inside after, cs = before ++ '/' :: '*' :: (inside ++ '*' :: '/' :: after)

theorem hasLine_cons {c : Char} {cs : List Char} :
    HasLine (c :: cs) ↔ (c = '/' ∧ cs.head? = some '/') ∨ HasLine cs :=
  Text.pair_infix_cons

theorem hasBlock_cons {c : Char} {cs : List Char} :
    HasBlock (c :: cs) ↔
      (c = '/' ∧ ∃ ds, cs = '*' :: ds ∧ ['*', '/'] <:+: ds) ∨ HasBlock cs := by
  constructor
  · intro hblock
    obtain ⟨before, inside, after, h⟩ := hblock
    cases before with
    | nil =>
      obtain ⟨rfl, rfl⟩ := List.cons.inj h
      exact Or.inl ⟨rfl, _, rfl, inside, after, by simp⟩
    | cons b before =>
      exact Or.inr ⟨before, inside, after, (List.cons.inj h).2⟩
  · intro hmark
    rcases hmark with ⟨rfl, ds, rfl, inside, after, rfl⟩ | ⟨before, inside, after, rfl⟩
    · exact ⟨[], inside, after, by simp⟩
    · exact ⟨c :: before, inside, after, rfl⟩

theorem HasLine.of_suffix {cs ds : List Char} (h : HasLine ds) (hs : ds <:+ cs) : HasLine cs :=
  h.trans hs.isInfix

theorem HasBlock.closing {cs : List Char} (h : HasBlock cs) : ['*', '/'] <:+: cs := by
  obtain ⟨before, inside, after, rfl⟩ := h
  exact ⟨before ++ '/' :: '*' :: inside, after, by simp⟩

theorem HasBlock.opening {cs : List Char} (h : HasBlock cs) : ['/', '*'] <:+: cs := by
  obtain ⟨before, inside, after, rfl⟩ := h
  exact ⟨before, inside ++ '*' :: '/' :: after, by simp⟩

/-- Marks cannot begin among characters other than a slash. -/
theorem hasLine_append {xs cs : List Char} (hx : '/' ∉ xs) : HasLine (xs ++ cs) ↔ HasLine cs := by
  induction xs with
  | nil => rfl
  | cons x xs ih =>
    have hne : x ≠ '/' := fun he => hx (by simp [he])
    have ht : '/' ∉ xs := fun h => hx (List.mem_cons_of_mem x h)
    rw [List.cons_append, hasLine_cons, ih ht]
    simp [hne]

theorem hasBlock_append {xs cs : List Char} (hx : '/' ∉ xs) :
    HasBlock (xs ++ cs) ↔ HasBlock cs := by
  induction xs with
  | nil => rfl
  | cons x xs ih =>
    have hne : x ≠ '/' := fun he => hx (by simp [he])
    have ht : '/' ∉ xs := fun h => hx (List.mem_cons_of_mem x h)
    rw [List.cons_append, hasBlock_cons, ih ht]
    simp [hne]

theorem head?_dropLines (cs : List Char) :
    (dropLines cs).head? = cs.head? ∨ cs.head? = some '/' := by
  fun_cases dropLines cs with
  | case1 => exact Or.inl rfl
  | case2 => exact Or.inr rfl
  | case3 => exact Or.inl rfl

theorem not_hasLine_dropLines (cs : List Char) : ¬ HasLine (dropLines cs) := by
  fun_induction dropLines cs with
  | case1 => simp [HasLine]
  | case2 cs ih => exact ih
  | case3 c cs hnot ih =>
    rw [hasLine_cons]
    intro hmark
    rcases hmark with ⟨rfl, hhead⟩ | hline
    · have hcs : cs.head? = some '/' := by
        rcases head?_dropLines cs with h | h
        · rw [← h, hhead]
        · exact h
      cases cs with
      | nil => simp at hcs
      | cons d ds => exact hnot ds rfl (by simpa using hcs)
    · exact ih hline

theorem dropLines_of_not_hasLine {cs : List Char} (h : ¬ HasLine cs) : dropLines cs = cs := by
  fun_induction dropLines cs with
  | case1 => rfl
  | case2 cs ih => exact absurd ⟨[], cs, rfl⟩ h
  | case3 c cs hnot ih =>
    rw [hasLine_cons, not_or] at h
    rw [ih h.2]

theorem splitClose_eq_some {cs inside rest : List Char}
    (h : splitClose cs = some (inside, rest)) : cs = inside ++ '*' :: '/' :: rest := by
  fun_induction splitClose cs generalizing inside with
  | case1 => simp at h
  | case2 cs =>
    obtain ⟨rfl, rfl⟩ := Prod.mk.inj (Option.some.inj h)
    rfl
  | case3 c cs _ ih =>
    obtain ⟨⟨i, r⟩, hr, he⟩ := Option.map_eq_some_iff.1 h
    obtain ⟨rfl, rfl⟩ := Prod.mk.inj he
    rw [ih hr, List.cons_append]

theorem splitClose_eq_none {cs : List Char} (h : splitClose cs = none) :
    ¬ ['*', '/'] <:+: cs := by
  fun_induction splitClose cs with
  | case1 => simp
  | case2 cs => simp at h
  | case3 c cs hnot ih =>
    rw [Option.map_eq_none_iff] at h
    rw [List.infix_cons_iff, not_or]
    refine ⟨?_, ih h⟩
    intro hprefix
    obtain ⟨ds, hds⟩ := hprefix
    obtain ⟨rfl, hcs⟩ := List.cons.inj hds
    exact hnot ds rfl hcs.symm

theorem slash_notMem_newlines (cs : List Char) : '/' ∉ cs.filter (· == '\n') := by
  simp

theorem head?_dropBlocks (cs : List Char) :
    (dropBlocks cs).head? = cs.head? ∨ cs.head? = some '/' := by
  fun_cases dropBlocks cs with
  | case1 => exact Or.inl rfl
  | case2 => exact Or.inr rfl
  | case3 => exact Or.inr rfl
  | case4 => exact Or.inl rfl

/-- In a text without line comments a slash never meets what follows a comment, on either side:
the slash would have been the first of two. -/
theorem head?_dropBlocks_of_not_hasLine {cs : List Char} (h : ¬ HasLine ('/' :: cs)) :
    (dropBlocks cs).head? = cs.head? := by
  rcases head?_dropBlocks cs with heq | hslash
  · exact heq
  · exact absurd (hasLine_cons.2 (Or.inl ⟨rfl, hslash⟩)) h

theorem rest_suffix {cs inside rest : List Char} (h : splitClose cs = some (inside, rest)) :
    rest <:+ '/' :: '*' :: cs :=
  ⟨'/' :: '*' :: (inside ++ ['*', '/']), by simp [splitClose_eq_some h]⟩

theorem not_hasLine_dropBlocks {cs : List Char} (h : ¬ HasLine cs) : ¬ HasLine (dropBlocks cs) := by
  fun_induction dropBlocks cs with
  | case1 => exact h
  | case2 cs inside rest hsplit ih =>
    rw [hasLine_append (slash_notMem_newlines inside)]
    exact ih fun hrest => h (hrest.of_suffix (rest_suffix hsplit))
  | case3 => exact h
  | case4 c cs _ ih =>
    rw [hasLine_cons]
    intro hmark
    rcases hmark with ⟨rfl, hhead⟩ | hline
    · rw [head?_dropBlocks_of_not_hasLine h] at hhead
      exact h (hasLine_cons.2 (Or.inl ⟨rfl, hhead⟩))
    · exact ih (fun hcs => h (hasLine_cons.2 (Or.inr hcs))) hline

theorem not_hasBlock_dropBlocks {cs : List Char} (h : ¬ HasLine cs) :
    ¬ HasBlock (dropBlocks cs) := by
  fun_induction dropBlocks cs with
  | case1 =>
    intro hblock
    obtain ⟨before, inside, after, he⟩ := hblock
    simp at he
  | case2 cs inside rest hsplit ih =>
    rw [hasBlock_append (slash_notMem_newlines inside)]
    exact ih fun hrest => h (hrest.of_suffix (rest_suffix hsplit))
  | case3 cs hsplit =>
    have hopen := splitClose_eq_none hsplit
    rw [hasBlock_cons, hasBlock_cons]
    intro hmark
    rcases hmark with ⟨_, ds, he, hclose⟩ | ⟨hc, _⟩ | hblock
    · exact hopen ((List.cons.inj he).2 ▸ hclose)
    · simp at hc
    · exact hopen hblock.closing
  | case4 c cs hnot ih =>
    rw [hasBlock_cons]
    intro hmark
    rcases hmark with ⟨rfl, ds, he, _⟩ | hblock
    · -- The star after the slash stood there before the pass, and the slash opened no block then.
      have hhead := head?_dropBlocks_of_not_hasLine h
      cases cs with
      | nil => simp [he] at hhead
      | cons d cs => exact hnot cs rfl (by simpa [he, eq_comm] using hhead)
    · exact ih (fun hcs => h (hasLine_cons.2 (Or.inr hcs))) hblock

theorem dropBlocks_of_not_hasBlock {cs : List Char} (h : ¬ HasBlock cs) : dropBlocks cs = cs := by
  fun_induction dropBlocks cs with
  | case1 => rfl
  | case2 cs inside rest hsplit ih =>
    exact absurd ⟨[], inside, rest, by simp [splitClose_eq_some hsplit]⟩ h
  | case3 => rfl
  | case4 c cs _ ih =>
    rw [hasBlock_cons, not_or] at h
    rw [ih h.2]

theorem not_hasLine_stripChars (cs : List Char) : ¬ HasLine (stripChars cs) :=
  not_hasLine_dropBlocks (not_hasLine_dropLines cs)

theorem not_hasBlock_stripChars (cs : List Char) : ¬ HasBlock (stripChars cs) :=
  not_hasBlock_dropBlocks (not_hasLine_dropLines cs)

theorem stripChars_of_free {cs : List Char} (hl : ¬ HasLine cs) (hb : ¬ HasBlock cs) :
    stripChars cs = cs := by
  rw [stripChars, dropLines_of_not_hasLine hl, dropBlocks_of_not_hasBlock hb]

@[simp] theorem toList_strip (s : String) : (strip s).toList = stripChars s.toList := by
  simp [strip]

theorem strip_of_free {s : String} (hl : ¬ HasLine s.toList) (hb : ¬ HasBlock s.toList) :
    strip s = s := by
  rw [strip, stripChars_of_free hl hb, String.ofList_toList]

theorem strip_free (s : String) : ¬ HasLine (strip s).toList ∧ ¬ HasBlock (strip s).toList := by
  rw [toList_strip]
  exact ⟨not_hasLine_stripChars s.toList, not_hasBlock_stripChars s.toList⟩

theorem strip_strip (s : String) : strip (strip s) = strip s :=
  strip_of_free (strip_free s).1 (strip_free s).2

/-- A text without a slash has no comment to lose. -/
theorem strip_of_no_slash {s : String} (h : '/' ∉ s.toList) : strip s = s := by
  apply strip_of_free
  · exact fun hl => h (hl.subset (by simp))
  · exact fun hb => h (hb.closing.subset (by simp))

/-- Stripping leaves no comment, changes only texts that have one, and changes nothing the second
time; a unit reads the same before and after. -/
theorem strip_exact (s : String) :
    (¬ HasLine (strip s).toList ∧ ¬ HasBlock (strip s).toList) ∧
    (strip s = s ↔ ¬ HasLine s.toList ∧ ¬ HasBlock s.toList) ∧
    strip (strip s) = strip s ∧ parse (strip s) = parse s := by
  have hfree := strip_free s
  refine ⟨hfree, ⟨?_, ?_⟩, strip_strip s, ?_⟩
  · intro h
    rwa [h] at hfree
  · intro hnone
    obtain ⟨hl, hb⟩ := hnone
    exact strip_of_free hl hb
  · rw [parse, strip_strip, parse]

end Comment
end ClassShape
