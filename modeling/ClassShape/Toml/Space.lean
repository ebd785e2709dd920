import ClassShape.Text.Basic

/-! Blanks, line ends and comments of TOML. -/
namespace ClassShape.Toml

def isSpace (c : Char) : Bool := c == ' ' || c == '\t'

def skipSpace (cs : List Char) : List Char := cs.dropWhile isSpace

def isPlain (c : Char) : Bool := c == '\t' || (32 ≤ c.toNat && c.toNat ≠ 127)

def newline? : List Char → Option (List Char)
  | '\n' :: cs => some cs
  | '\r' :: '\n' :: cs => some cs
  | _ => none

def skipComment : List Char → List Char
  | '#' :: cs => cs.dropWhile isPlain
  | cs => cs

def endLine? (cs : List Char) : Option (List Char) :=
  match skipComment (skipSpace cs) with
  | [] => some []
  | rest => newline? rest

theorem newline?_length {cs rest : List Char} (h : newline? cs = some rest) :
    rest.length < cs.length := by
  unfold newline? at h
  split at h
  · obtain rfl := Option.some.inj h
    simp
  · obtain rfl := Option.some.inj h
    simp only [List.length_cons]
    omega
  · simp at h

theorem skipComment_length (cs : List Char) : (skipComment cs).length ≤ cs.length := by
  unfold skipComment
  split
  · exact Nat.le_succ_of_le (Text.length_dropWhile_le _ _)
  · exact Nat.le_refl _

def skipLines (cs : List Char) : List Char :=
  match _h : newline? (skipComment (skipSpace cs)) with
  | some rest => skipLines rest
  | none => skipSpace cs
termination_by cs.length
decreasing_by
  have h1 := newline?_length _h
  have h2 := skipComment_length (skipSpace cs)
  have h3 := Text.length_dropWhile_le isSpace cs
  simp only [skipSpace] at h1 h2
  omega

end ClassShape.Toml
