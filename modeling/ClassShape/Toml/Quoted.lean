import ClassShape.Toml.Space

/-! Quoted texts of TOML: basic ones, in which a backslash escapes, and literal ones, each on one
line or on several. -/
namespace ClassShape.Toml

def hexValue? (c : Char) : Option Nat :=
  if c.isDigit then some (c.toNat - '0'.toNat)
  else if 'a' ≤ c ∧ c ≤ 'f' then some (c.toNat - 'a'.toNat + 10)
  else if 'A' ≤ c ∧ c ≤ 'F' then some (c.toNat - 'A'.toNat + 10)
  else none

def hexNumber? (ds : List Char) : Option Nat :=
  ds.foldlM (fun n d => (hexValue? d).map (16 * n + ·)) 0

def codeEscape? (n : Nat) (cs : List Char) : Option Char :=
  if cs.length < n then none
  else (hexNumber? (cs.take n)).bind fun code =>
    if h : code.isValidChar then some (Char.ofNatAux code h) else none

def simpleEscape? (c : Char) : Option Char :=
  match c with
  | 'b' => some (Char.ofNat 8)
  | 't' => some '\t'
  | 'n' => some '\n'
  | 'f' => some (Char.ofNat 12)
  | 'r' => some '\r'
  | '"' => some '"'
  | '\\' => some '\\'
  | _ => none

def skipBreaks (cs : List Char) : List Char :=
  cs.dropWhile fun c => isSpace c || c == '\n' || c == '\r'

def unescape (multiline : Bool) : List Char → Option (List Char)
  | [] => some []
  | '\\' :: cs =>
    match cs with
    | [] => none
    | 'u' :: rest => do
      let c ← codeEscape? 4 rest
      return c :: (← unescape multiline (rest.drop 4))
    | 'U' :: rest => do
      let c ← codeEscape? 8 rest
      return c :: (← unescape multiline (rest.drop 8))
    | e :: rest =>
      match simpleEscape? e with
      | some c => (unescape multiline rest).map (c :: ·)
      | none =>
        -- a backslash at the end of a line takes away all blanks and line ends behind it
        let after := skipSpace (e :: rest)
        if multiline && (newline? after).isSome then
          unescape multiline (skipBreaks (e :: rest))
        else none
  | c :: cs =>
    if isPlain c then (unescape multiline cs).map (c :: ·)
    else if multiline && c == '\n' then (unescape multiline cs).map ('\n' :: ·)
    else if multiline && c == '\r' && cs.head? == some '\n' then unescape multiline cs
    else none
termination_by cs => cs.length
decreasing_by
  · simp only [List.length_cons, List.length_drop]; omega
  · simp only [List.length_cons, List.length_drop]; omega
  · simp only [List.length_cons]; omega
  · exact Nat.lt_succ_of_le (Text.length_dropWhile_le _ (e :: rest))
  · simp
  · simp
  · simp

def literal (multiline : Bool) : List Char → Option (List Char)
  | [] => some []
  | c :: cs =>
    if isPlain c then (literal multiline cs).map (c :: ·)
    else if multiline && c == '\n' then (literal multiline cs).map ('\n' :: ·)
    else if multiline && c == '\r' && cs.head? == some '\n' then literal multiline cs
    else none

def splitOne (quote : Char) (escapes : Bool) : List Char → Option (List Char × List Char)
  | [] => none
  | [c] => if c = quote then some ([], []) else none
  | c :: e :: cs =>
    if c = quote then some ([], e :: cs)
    else if escapes && c == '\\' then
      (splitOne quote escapes cs).map fun (inside, rest) => (c :: e :: inside, rest)
    else (splitOne quote escapes (e :: cs)).map fun (inside, rest) => (c :: inside, rest)

/-- The inside of a text up to three closing quotes, and what follows. Of more quotes in a row up
to two belong to the text. -/
def splitThree (quote : Char) (escapes : Bool) : List Char → Option (List Char × List Char)
  | c :: d :: e :: cs =>
    if c = quote ∧ d = quote ∧ e = quote then
      match cs with
      | f :: g :: rest =>
        if f = quote ∧ g = quote then some ([f, g], rest)
        else if f = quote then some ([f], g :: rest)
        else some ([], f :: g :: rest)
      | [f] => if f = quote then some ([f], []) else some ([], [f])
      | [] => some ([], [])
    else if escapes && c == '\\' then
      (splitThree quote escapes (e :: cs)).map fun (inside, rest) => (c :: d :: inside, rest)
    else (splitThree quote escapes (d :: e :: cs)).map fun (inside, rest) => (c :: inside, rest)
  | _ => none

def dropNewline (cs : List Char) : List Char := (newline? cs).getD cs

def lineText? : List Char → Option (String × List Char)
  | '"' :: cs => do
    let (inside, rest) ← splitOne '"' true cs
    return (String.ofList (← unescape false inside), rest)
  | '\'' :: cs => do
    let (inside, rest) ← splitOne '\'' false cs
    return (String.ofList (← literal false inside), rest)
  | _ => none

/-- A quoted text, on one line or on several. A line end right after the three quotes is not part
of the text. -/
def text? : List Char → Option (String × List Char)
  | '"' :: '"' :: '"' :: cs => do
    let (inside, rest) ← splitThree '"' true (dropNewline cs)
    return (String.ofList (← unescape true inside), rest)
  | '\'' :: '\'' :: '\'' :: cs => do
    let (inside, rest) ← splitThree '\'' false (dropNewline cs)
    return (String.ofList (← literal true inside), rest)
  | cs => lineText? cs

end ClassShape.Toml
