import ClassShape.Proofs.Checked.Access
import ClassShape.Proofs.Stripping
import Mathlib.Data.List.TakeWhile

/-! Comments removed by offsets: a line is cut at its mark, and a block comment is cut out between
its marks. No cut is out of place, and what stays is the stripped text. -/
namespace ClassShape
open Comment (dropLines dropBlocks splitClose)

namespace Checked

def lines : List Char → List (List Char)
  | [] => []
  | c :: cs =>
    if c = '\n' then [c] :: lines cs
    else
      match lines cs with
      | [] => [[c]]
      | l :: ls => (c :: l) :: ls

def cutLine (line : List Char) : Checked (List Char) :=
  match find? ['/', '/'] line with
  | none => .ok line
  | some start => do
    let kept ← slice 0 start line
    .ok (if line.getLast? = some '\n' then kept ++ ['\n'] else kept)

def cutLines (source : List Char) : Checked (List Char) := do
  let kept ← (lines source).mapM cutLine
  .ok kept.flatten

/-- What replaces the text up to the end of its first block comment, and the rest. -/
def cutBlock? (text : List Char) : Checked (Option (List Char × List Char)) :=
  match find? ['/', '*'] text with
  | none => .ok none
  | some start => do
    let opened ← sliceFrom (start + 2) text
    match find? ['*', '/'] opened with
    | none => .ok none
    | some inside => do
      let stop := start + 2 + inside
      let before ← slice 0 start text
      let comment ← slice start stop text
      let rest ← sliceFrom (stop + 2) text
      .ok (some (before ++ List.replicate (comment.count '\n') '\n', rest))

section Pairs
variable {a b c : Char} {cs : List Char}

theorem find?_pair (a b : Char) (cs : List Char) : find? [a, b] (a :: b :: cs) = some 0 := by
  simp [find?]

theorem find?_pair_cons (h : ∀ ds, c = a → cs = b :: ds → False) :
    find? [a, b] (c :: cs) = (find? [a, b] cs).map (c.utf8Size + ·) := by
  have hnot : ¬ [a, b].isPrefixOf (c :: cs) = true := by
    intro hp
    obtain ⟨ds, hds⟩ := List.isPrefixOf_iff_prefix.1 hp
    obtain ⟨rfl, rfl⟩ := List.cons.inj hds
    exact h ds rfl rfl
  rw [find?, if_neg hnot]

/-- A last character that is no part of the mark changes nothing. -/
theorem find?_pair_concat {e : Char} (he : e ≠ b) (cs : List Char) :
    find? [a, b] (cs ++ [e]) = find? [a, b] cs := by
  induction cs with
  | nil => simp [find?]
  | cons c cs ih =>
    by_cases h : ∃ ds, c = a ∧ cs = b :: ds
    · obtain ⟨ds, rfl, rfl⟩ := h
      rw [List.cons_append, List.cons_append, find?_pair, find?_pair]
    · have hcons : ∀ ds, c = a → cs = b :: ds → False := fun ds hc hcs => h ⟨ds, hc, hcs⟩
      have hconcat : ∀ ds, c = a → cs ++ [e] = b :: ds → False := by
        intro ds hc hcs
        cases cs with
        | nil => exact he (List.cons.inj hcs).1
        | cons d cs => exact hcons cs hc (by rw [(List.cons.inj hcs).1])
      rw [List.cons_append, find?_pair_cons hcons, find?_pair_cons hconcat, ih]

end Pairs
end Checked

theorem Comment.dropLines_append_newline (cs rest : List Char) :
    dropLines (cs ++ '\n' :: rest) = dropLines cs ++ '\n' :: dropLines rest := by
  fun_induction dropLines cs with
  | case1 => simp [dropLines]
  | case2 cs ih =>
    have hdrop : (cs ++ '\n' :: rest).dropWhile (· != '\n') =
        cs.dropWhile (· != '\n') ++ '\n' :: rest := by
      rw [List.dropWhile_append]
      split
      · simp_all
      · rfl
    rw [List.cons_append, List.cons_append, dropLines, hdrop, ih]
  | case3 c cs hnot ih =>
    rw [List.cons_append, dropLines, ih, List.cons_append]
    intro ds hc hds
    cases cs with
    | nil => simp at hds
    | cons d cs => exact hnot cs hc (by rw [(List.cons.inj hds).1])

theorem Comment.dropBlocks_open (cs : List Char) :
    dropBlocks ('/' :: '*' :: cs) =
      match splitClose cs with
      | some (inside, rest) => inside.filter (· == '\n') ++ dropBlocks rest
      | none => '/' :: '*' :: cs := by
  rw [dropBlocks]
  split <;> simp_all

namespace Checked

/-- Where a line is cut. -/
theorem find?_line {body : List Char} (h : '\n' ∉ body) :
    (find? ['/', '/'] body = none ∧ dropLines body = body) ∨
      ∃ before after, body = before ++ after ∧
        find? ['/', '/'] body = some (Text.byteLength before) ∧ dropLines body = before := by
  fun_induction dropLines body with
  | case1 => exact Or.inl ⟨by simp [find?], rfl⟩
  | case2 cs ih =>
    have hcs : cs.dropWhile (· != '\n') = [] := by
      rw [List.dropWhile_eq_nil_iff]
      intro c hc
      have hne : c ≠ '\n' := fun he =>
        h (List.mem_cons_of_mem _ (List.mem_cons_of_mem _ (he ▸ hc)))
      simpa using hne
    exact Or.inr ⟨[], _, rfl, find?_pair _ _ cs, by simp [hcs, dropLines]⟩
  | case3 c cs hnot ih =>
    have hfind := find?_pair_cons hnot
    rcases ih fun hcs => h (List.mem_cons_of_mem c hcs) with ⟨hnone, hkept⟩ |
      ⟨before, after, rfl, hsome, hkept⟩
    · exact Or.inl ⟨by rw [hfind, hnone, Option.map_none], by rw [hkept]⟩
    · refine Or.inr ⟨c :: before, after, rfl, ?_, by rw [hkept]⟩
      rw [hfind, hsome, Option.map_some, Text.byteLength_cons]

theorem cutLine_eq {body : List Char} (h : '\n' ∉ body) : cutLine body = .ok (dropLines body) := by
  have hlast : ¬ body.getLast? = some '\n' := fun hl => h (List.mem_of_getLast? hl)
  rcases find?_line h with ⟨hnone, hkept⟩ | ⟨before, after, rfl, hsome, hkept⟩
  · rw [cutLine, hnone, hkept]
  · rw [cutLine, hsome, hkept]
    simp only [slice_zero_append, ok_bind, if_neg hlast]

theorem cutLine_newline {body : List Char} (h : '\n' ∉ body) :
    cutLine (body ++ ['\n']) = .ok (dropLines body ++ ['\n']) := by
  rcases find?_line h with ⟨hnone, hkept⟩ | ⟨before, after, rfl, hsome, hkept⟩
  · rw [cutLine, find?_pair_concat (by decide), hnone, hkept]
  · rw [cutLine, find?_pair_concat (by decide), hsome, hkept, List.append_assoc]
    simp only [slice_zero_append, ok_bind]
    simp

theorem lines_newline {body : List Char} (h : '\n' ∉ body) (rest : List Char) :
    lines (body ++ '\n' :: rest) = (body ++ ['\n']) :: lines rest := by
  induction body with
  | nil => simp [lines]
  | cons c body ih =>
    have hc : c ≠ '\n' := fun he => h (by simp [he])
    rw [List.cons_append, lines, if_neg hc, ih fun hb => h (List.mem_cons_of_mem c hb)]
    rfl

theorem lines_eq_singleton {body : List Char} (h : '\n' ∉ body) (hne : body ≠ []) :
    lines body = [body] := by
  induction body with
  | nil => exact absurd rfl hne
  | cons c body ih =>
    have hc : c ≠ '\n' := fun he => h (by simp [he])
    rw [lines, if_neg hc]
    cases body with
    | nil => rfl
    | cons d body => rw [ih (fun hb => h (List.mem_cons_of_mem c hb)) (by simp)]

/-- A line in progress is carried along as `body` until its newline or the end is met. -/
theorem mapM_cutLine {body : List Char} (h : '\n' ∉ body) (source : List Char) :
    ∃ kept, (lines (body ++ source)).mapM cutLine = .ok kept ∧
      kept.flatten = dropLines (body ++ source) := by
  induction source generalizing body with
  | nil =>
    rw [List.append_nil]
    by_cases hne : body = []
    · subst hne
      exact ⟨[], rfl, by simp [dropLines]⟩
    · refine ⟨[dropLines body], ?_, by simp⟩
      rw [lines_eq_singleton h hne, mapM_cons, cutLine_eq h]
      rfl
  | cons c source ih =>
    by_cases hc : c = '\n'
    · subst hc
      obtain ⟨kept, hkept, hflat⟩ := ih List.not_mem_nil
      rw [List.nil_append] at hkept hflat
      refine ⟨(dropLines body ++ ['\n']) :: kept, ?_, ?_⟩
      · rw [lines_newline h, mapM_cons, cutLine_newline h, ok_bind, hkept, ok_bind]
      · rw [Comment.dropLines_append_newline, List.flatten_cons, hflat, List.append_assoc,
          List.singleton_append]
    · have hnext : '\n' ∉ body ++ [c] := by simp [h, Ne.symm hc]
      simpa using ih hnext

theorem cutLines_eq (source : List Char) : cutLines source = .ok (dropLines source) := by
  obtain ⟨kept, hkept, hflat⟩ := mapM_cutLine List.not_mem_nil source
  rw [List.nil_append] at hkept hflat
  rw [cutLines, hkept, ok_bind, hflat]

/-- Where a block comment opens. -/
theorem find?_open (text : List Char) :
    (find? ['/', '*'] text = none ∧ dropBlocks text = text) ∨
      ∃ before after, text = before ++ '/' :: '*' :: after ∧
        find? ['/', '*'] text = some (Text.byteLength before) ∧
        dropBlocks text = before ++ dropBlocks ('/' :: '*' :: after) := by
  induction text with
  | nil => exact Or.inl ⟨by simp [find?], by simp [dropBlocks]⟩
  | cons c cs ih =>
    by_cases h : ∃ ds, c = '/' ∧ cs = '*' :: ds
    · obtain ⟨ds, rfl, rfl⟩ := h
      exact Or.inr ⟨[], ds, rfl, find?_pair _ _ ds, rfl⟩
    · have hnot : ∀ ds, c = '/' → cs = '*' :: ds → False := fun ds hc hcs => h ⟨ds, hc, hcs⟩
      rw [find?_pair_cons hnot, dropBlocks.eq_3 c cs hnot]
      rcases ih with ⟨hnone, hkept⟩ | ⟨before, after, rfl, hsome, hkept⟩
      · exact Or.inl ⟨by rw [hnone, Option.map_none], by rw [hkept]⟩
      · refine Or.inr ⟨c :: before, after, rfl, ?_, by rw [hkept, List.cons_append]⟩
        rw [hsome, Option.map_some, Text.byteLength_cons]

/-- Where it closes. -/
theorem find?_close (cs : List Char) :
    (find? ['*', '/'] cs = none ∧ splitClose cs = none) ∨
      ∃ inside rest, cs = inside ++ '*' :: '/' :: rest ∧
        find? ['*', '/'] cs = some (Text.byteLength inside) ∧
        splitClose cs = some (inside, rest) := by
  fun_induction splitClose cs with
  | case1 => exact Or.inl ⟨by simp [find?], rfl⟩
  | case2 cs => exact Or.inr ⟨[], cs, rfl, find?_pair _ _ cs, rfl⟩
  | case3 c cs hnot ih =>
    rw [find?_pair_cons hnot]
    rcases ih with ⟨hnone, hsplit⟩ | ⟨inside, rest, rfl, hsome, hsplit⟩
    · exact Or.inl ⟨by rw [hnone, Option.map_none], by rw [hsplit, Option.map_none]⟩
    · refine Or.inr ⟨c :: inside, rest, rfl, ?_, by rw [hsplit, Option.map_some]⟩
      rw [hsome, Option.map_some, Text.byteLength_cons]

/-- No block comment is cut, or the first one is. -/
theorem cutBlock?_cases (text : List Char) :
    (cutBlock? text = .ok none ∧ dropBlocks text = text) ∨
      ∃ before inside rest, text = before ++ '/' :: '*' :: (inside ++ '*' :: '/' :: rest) ∧
        cutBlock? text = .ok (some (before ++ inside.filter (· == '\n'), rest)) ∧
        dropBlocks text = before ++ inside.filter (· == '\n') ++ dropBlocks rest := by
  rcases find?_open text with ⟨hnone, hkept⟩ | ⟨before, after, rfl, hopen, hkept⟩
  · exact Or.inl ⟨by rw [cutBlock?, hnone], hkept⟩
  have hopened : sliceFrom (Text.byteLength before + 2) (before ++ '/' :: '*' :: after) =
      .ok after :=
    sliceFrom_append (List.append_assoc before ['/', '*'] after).symm (Text.byteLength_append ..)
  rcases find?_close after with ⟨hnone, hsplit⟩ | ⟨inside, rest, rfl, hclose, hsplit⟩
  · refine Or.inl ⟨?_, ?_⟩
    · simp only [cutBlock?, hopen, hopened, ok_bind, hnone]
    · rw [hkept, Comment.dropBlocks_open, hsplit]
  · refine Or.inr ⟨before, inside, rest, rfl, ?_, ?_⟩
    · have hmarks : Text.byteLength ['/', '*'] = 2 ∧ Text.byteLength ['*', '/'] = 2 := by decide
      have hcomment : slice (Text.byteLength before)
          (Text.byteLength before + 2 + Text.byteLength inside)
          (before ++ '/' :: '*' :: (inside ++ '*' :: '/' :: rest)) =
            .ok (['/', '*'] ++ inside) := by
        refine slice_append
          (show _ = before ++ ((['/', '*'] ++ inside) ++ '*' :: '/' :: rest) by simp) rfl ?_
        rw [Text.byteLength_append, hmarks.1, Nat.add_assoc]
      have hrest : sliceFrom (Text.byteLength before + 2 + Text.byteLength inside + 2)
          (before ++ '/' :: '*' :: (inside ++ '*' :: '/' :: rest)) = .ok rest := by
        refine sliceFrom_append
          (show _ = (before ++ ['/', '*'] ++ inside ++ ['*', '/']) ++ rest by simp) ?_
        simp only [Text.byteLength_append, hmarks]
      simp only [cutBlock?, hopen, hopened, ok_bind, hclose, slice_zero_append, hcomment, hrest]
      rw [List.filter_beq]
      rfl
    · rw [hkept, Comment.dropBlocks_open, hsplit, List.append_assoc]

theorem length_of_cutBlock? {text out rest : List Char}
    (h : cutBlock? text = .ok (some (out, rest))) : rest.length < text.length := by
  rcases cutBlock?_cases text with ⟨hnone, _⟩ | ⟨before, inside, rest', htext, hsome, _⟩
  · simp [h] at hnone
  · obtain ⟨rfl, rfl⟩ : out = _ ∧ rest = rest' := by simpa [h] using hsome
    simp only [htext, List.length_append, List.length_cons]
    omega

def cutBlocks (text : List Char) : Checked (List Char) :=
  match _h : cutBlock? text with
  | .error f => .error f
  | .ok none => .ok text
  | .ok (some (kept, rest)) => do
    let tail ← cutBlocks rest
    .ok (kept ++ tail)
termination_by text.length
decreasing_by exact length_of_cutBlock? _h

theorem cutBlocks_eq (text : List Char) : cutBlocks text = .ok (dropBlocks text) := by
  fun_induction cutBlocks text with
  | case1 text f h =>
    rcases cutBlock?_cases text with ⟨hnone, _⟩ | ⟨_, _, _, _, hsome, _⟩
    · simp [h] at hnone
    · simp [h] at hsome
  | case2 text h =>
    rcases cutBlock?_cases text with ⟨_, hkept⟩ | ⟨_, _, _, _, hsome, _⟩
    · rw [hkept]
    · simp [h] at hsome
  | case3 text kept rest h ih =>
    rcases cutBlock?_cases text with ⟨hnone, _⟩ | ⟨before, inside, rest', _, hsome, hkept⟩
    · simp [h] at hnone
    · obtain ⟨rfl, rfl⟩ : kept = _ ∧ rest = rest' := by simpa [h] using hsome
      rw [ih, ok_bind, hkept]

def strip (source : String) : Checked String := do
  let kept ← cutLines source.toList
  let text ← cutBlocks kept
  .ok (String.ofList text)

theorem strip_eq (source : String) : strip source = .ok (Comment.strip source) := by
  rw [strip, cutLines_eq, ok_bind, cutBlocks_eq, ok_bind, Comment.strip, Comment.stripChars]

end Checked
end ClassShape
