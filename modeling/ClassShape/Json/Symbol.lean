import ClassShape.Json.Basic
import ClassShape.Text.Basic

/-! The symbols of a JSON text: brackets, separators, and values that hold no other. -/
namespace ClassShape.Json

inductive Symbol where
  | leftBracket
  | rightBracket
  | leftBrace
  | rightBrace
  | colon
  | comma
  | atom (value : Json)

def isSpace (c : Char) : Bool := c == ' ' || c == '\t' || c == '\n' || c == '\r'

def isNumberChar (c : Char) : Bool :=
  c.isDigit || c == '-' || c == '+' || c == '.' || c == 'e' || c == 'E'

def natOfDigits (ds : List Char) : Nat :=
  ds.foldl (fun n d => 10 * n + (d.toNat - '0'.toNat)) 0

def isExponent : List Char → Bool
  | [] => true
  | e :: cs =>
    let digits := match cs with
      | '+' :: ds => ds
      | '-' :: ds => ds
      | ds => ds
    (e == 'e' || e == 'E') && !digits.isEmpty && digits.all Char.isDigit

def isFractionExponent : List Char → Bool
  | '.' :: cs =>
    let digits := cs.takeWhile Char.isDigit
    !digits.isEmpty && isExponent (cs.dropWhile Char.isDigit)
  | cs => isExponent cs

def isWhole : List Char → Bool
  | [] => false
  | ['0'] => true
  | '0' :: _ => false
  | _ => true

def unsigned? (cs : List Char) : Option (List Char × List Char) :=
  let digits := cs.takeWhile Char.isDigit
  let rest := cs.dropWhile Char.isDigit
  if isWhole digits && isFractionExponent rest then some (digits, rest) else none

def readNumber (cs : List Char) : Option Json :=
  match cs with
  | '-' :: ds => (unsigned? ds).map fun _ => number (String.ofList cs)
  | _ => (unsigned? cs).map fun (digits, rest) =>
    if rest.isEmpty then count (natOfDigits digits) else number (String.ofList cs)

def hexValue? (c : Char) : Option Nat :=
  if c.isDigit then some (c.toNat - '0'.toNat)
  else if 'a' ≤ c ∧ c ≤ 'f' then some (c.toNat - 'a'.toNat + 10)
  else if 'A' ≤ c ∧ c ≤ 'F' then some (c.toNat - 'A'.toNat + 10)
  else none

def unit? : List Char → Option (Nat × List Char)
  | a :: b :: c :: d :: cs => do
    let n := ((← hexValue? a) * 16 + (← hexValue? b)) * 256 + (← hexValue? c) * 16 + (← hexValue? d)
    return (n, cs)
  | _ => none

def isHighSurrogate (n : Nat) : Bool := 0xD800 ≤ n && n < 0xDC00

def isLowSurrogate (n : Nat) : Bool := 0xDC00 ≤ n && n < 0xE000

def simpleEscape? (c : Char) : Option Char :=
  match c with
  | '"' => some '"'
  | '\\' => some '\\'
  | '/' => some '/'
  | 'b' => some (Char.ofNat 8)
  | 'f' => some (Char.ofNat 12)
  | 'n' => some '\n'
  | 'r' => some '\r'
  | 't' => some '\t'
  | _ => none

def pair? (high : Nat) : List Char → Option (Char × List Char)
  | '\\' :: 'u' :: cs => do
    let (low, rest) ← unit? cs
    guard (isLowSurrogate low)
    return (Char.ofNat (0x10000 + (high - 0xD800) * 0x400 + (low - 0xDC00)), rest)
  | _ => none

def escape? : List Char → Option (Char × List Char)
  | [] => none
  | 'u' :: cs => do
    let (n, rest) ← unit? cs
    if isHighSurrogate n then pair? n rest
    else if isLowSurrogate n then none
    else return (Char.ofNat n, rest)
  | c :: cs => (simpleEscape? c).map (·, cs)

theorem unit?_length {cs rest : List Char} {n : Nat} (h : unit? cs = some (n, rest)) :
    rest.length < cs.length := by
  unfold unit? at h
  split at h
  · simp only [bind, Option.bind_eq_some_iff, pure, Option.some.injEq, Prod.mk.injEq] at h
    obtain ⟨_, _, _, _, _, _, _, _, _, rfl⟩ := h
    simp only [List.length_cons]
    omega
  · simp at h

theorem pair?_length {cs rest : List Char} {high : Nat} {c : Char}
    (h : pair? high cs = some (c, rest)) : rest.length < cs.length := by
  unfold pair? at h
  split at h
  · obtain ⟨⟨low, r⟩, hu, hrest⟩ := Option.bind_eq_some_iff.1 h
    obtain ⟨_, _, hpure⟩ := Option.bind_eq_some_iff.1 hrest
    obtain rfl : r = rest := (Prod.mk.inj (Option.some.inj hpure)).2
    have := unit?_length hu
    simp only [List.length_cons]
    omega
  · simp at h

theorem escape?_length {cs rest : List Char} {c : Char} (h : escape? cs = some (c, rest)) :
    rest.length < cs.length := by
  unfold escape? at h
  split at h
  · simp at h
  · simp only [bind, Option.bind_eq_some_iff] at h
    obtain ⟨⟨n, r⟩, hu, h⟩ := h
    have := unit?_length hu
    simp only [List.length_cons]
    split at h
    · have := pair?_length h
      simp only at this
      omega
    · split at h
      · simp at h
      · simp only [pure, Option.some.injEq, Prod.mk.injEq] at h
        obtain ⟨_, rfl⟩ := h
        omega
  · simp only [Option.map_eq_some_iff, Prod.mk.injEq] at h
    obtain ⟨_, _, _, rfl⟩ := h
    simp

def readString : List Char → Option (List Char × List Char)
  | [] => none
  | c :: cs =>
    if c = '"' then some ([], cs)
    else if c = '\\' then
      match _h : escape? cs with
      | some (e, rest) => (readString rest).map fun (s, after) => (e :: s, after)
      | none => none
    else if c.toNat < 32 then none
    else (readString cs).map fun (s, after) => (c :: s, after)
termination_by cs => cs.length
decreasing_by
  · have := escape?_length _h
    simp only [List.length_cons]
    omega
  · simp

theorem readString_length {cs s rest : List Char} (h : readString cs = some (s, rest)) :
    rest.length < cs.length := by
  fun_induction readString cs generalizing s with
  | case1 => simp at h
  | case2 cs =>
    simp only [Option.some.injEq, Prod.mk.injEq] at h
    obtain ⟨_, rfl⟩ := h
    simp
  | case3 cs e r he hq ih =>
    obtain ⟨⟨s', after⟩, hr, heq⟩ := Option.map_eq_some_iff.1 h
    simp only [Prod.mk.injEq] at heq
    obtain ⟨_, rfl⟩ := heq
    have h1 := ih hr
    have h2 := escape?_length he
    simp only [List.length_cons]
    omega
  | case4 => simp at h
  | case5 => simp at h
  | case6 c cs _ _ _ ih =>
    obtain ⟨⟨s', after⟩, hr, heq⟩ := Option.map_eq_some_iff.1 h
    simp only [Prod.mk.injEq] at heq
    obtain ⟨_, rfl⟩ := heq
    have := ih hr
    simp only [List.length_cons]
    omega

def punctuation? (c : Char) : Option Symbol :=
  match c with
  | '[' => some .leftBracket
  | ']' => some .rightBracket
  | '{' => some .leftBrace
  | '}' => some .rightBrace
  | ':' => some .colon
  | ',' => some .comma
  | _ => none

def literal? (cs : List Char) : Option Json :=
  if cs = "null".toList then some null
  else if cs = "true".toList then some (bool true)
  else if cs = "false".toList then some (bool false)
  else none

def symbols? : List Char → Option (List Symbol)
  | [] => some []
  | c :: cs =>
    if isSpace c then symbols? cs
    else match punctuation? c with
    | some s => (symbols? cs).map (s :: ·)
    | none =>
      if c = '"' then
        match _h : readString cs with
        | some (s, rest) => (symbols? rest).map (.atom (string (String.ofList s)) :: ·)
        | none => none
      else if isNumberChar c then do
        let v ← readNumber (c :: cs.takeWhile isNumberChar)
        let ss ← symbols? (cs.dropWhile isNumberChar)
        return .atom v :: ss
      else do
        let v ← literal? (c :: cs.takeWhile Char.isAlpha)
        let ss ← symbols? (cs.dropWhile Char.isAlpha)
        return .atom v :: ss
termination_by cs => cs.length
decreasing_by
  · simp
  · simp
  · have := readString_length _h
    simp only [List.length_cons]
    omega
  · exact Nat.lt_succ_of_le (Text.length_dropWhile_le _ cs)
  · exact Nat.lt_succ_of_le (Text.length_dropWhile_le _ cs)

end ClassShape.Json
