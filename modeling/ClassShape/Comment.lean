import ClassShape.Text.Basic

/-! Comment removal. Line comments go first, then block comments; string literals are not
looked at, so a comment mark inside one counts. Newlines are never dropped. -/
namespace ClassShape.Comment

def dropLines : List Char → List Char
  | [] => []
  | '/' :: '/' :: cs => dropLines (cs.dropWhile (· != '\n'))
  | c :: cs => c :: dropLines cs
termination_by cs => cs.length
decreasing_by
  · have := Text.length_dropWhile_le (· != '\n') cs
    simp only [List.length_cons]
    omega
  · simp

def splitClose : List Char → Option (List Char × List Char)
  | [] => none
  | '*' :: '/' :: cs => some ([], cs)
  | c :: cs => (splitClose cs).map fun (inside, rest) => (c :: inside, rest)

theorem splitClose_length {cs inside rest : List Char} (h : splitClose cs = some (inside, rest)) :
    rest.length < cs.length := by
  fun_induction splitClose cs generalizing inside with
  | case1 => simp at h
  | case2 cs =>
    simp only [Option.some.injEq, Prod.mk.injEq] at h
    obtain ⟨_, rfl⟩ := h
    simp only [List.length_cons]
    omega
  | case3 c cs _ ih =>
    obtain ⟨⟨i, r⟩, hr, he⟩ := Option.map_eq_some_iff.1 h
    simp only [Prod.mk.injEq] at he
    obtain ⟨_, rfl⟩ := he
    have := ih hr
    simp only [List.length_cons]
    omega

/-- Puts the newlines of each block comment in its place. An opening that is never closed stays,
with all that follows it. -/
def dropBlocks : List Char → List Char
  | [] => []
  | '/' :: '*' :: cs =>
    match _h : splitClose cs with
    | some (inside, rest) => inside.filter (· == '\n') ++ dropBlocks rest
    | none => '/' :: '*' :: cs
  | c :: cs => c :: dropBlocks cs
termination_by cs => cs.length
decreasing_by
  · have := splitClose_length _h
    simp only [List.length_cons]
    omega
  · simp

def stripChars (cs : List Char) : List Char := dropBlocks (dropLines cs)

def strip (source : String) : String := String.ofList (stripChars source.toList)

end ClassShape.Comment
