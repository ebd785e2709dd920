import ClassShape.Toml.Quoted

/-! TOML values, and the readers of numbers, dates and truth values. Of a float or a date only the
kind is kept. -/
namespace ClassShape.Toml

inductive Value where
  | string (s : String)
  | integer (n : Int)
  | float
  | bool (b : Bool)
  | date
  | array (items : List Value)
  | table (fields : List (String × Value))

/-- The digits of a number that has an underscore only between two digits. -/
def digits? (isDigit : Char → Bool) : List Char → Option (List Char)
  | [] => none
  | [d] => if isDigit d then some [d] else none
  | d :: '_' :: cs => if isDigit d then (digits? isDigit cs).map (d :: ·) else none
  | d :: cs => if isDigit d then (digits? isDigit cs).map (d :: ·) else none

def numberOf (base : Nat) (ds : List Char) : Nat :=
  ds.foldl (fun n d => base * n + (hexValue? d).getD 0) 0

def inRange (n : Int) : Bool := -(Nat.pow 2 63 : Int) ≤ n && n < (Nat.pow 2 63 : Int)

def isOctal (c : Char) : Bool := '0' ≤ c && c ≤ '7'

def isBinary (c : Char) : Bool := c == '0' || c == '1'

def isHex (c : Char) : Bool := (hexValue? c).isSome

def sign : List Char → Bool × List Char
  | '+' :: cs => (false, cs)
  | '-' :: cs => (true, cs)
  | cs => (false, cs)

def whole? (cs : List Char) : Option (List Char) := do
  let ds ← digits? Char.isDigit cs
  match ds with
  | '0' :: _ :: _ => none
  | ds => some ds

def integer? (cs : List Char) : Option Value :=
  let based (base : Nat) (isDigit : Char → Bool) (cs : List Char) : Option Value := do
    let n : Int := numberOf base (← digits? isDigit cs)
    if inRange n then some (.integer n) else none
  match cs with
  | '0' :: 'x' :: ds => based 16 isHex ds
  | '0' :: 'o' :: ds => based 8 isOctal ds
  | '0' :: 'b' :: ds => based 2 isBinary ds
  | _ => do
    let (negative, ds) := sign cs
    let n : Int := numberOf 10 (← whole? ds)
    let n := if negative then -n else n
    if inRange n then some (.integer n) else none

/-- Whether `0.digits * 10 ^ exponent` is too large for the 64-bit binary format: not below half a
unit of the last place above its largest number. -/
def overflows (ds : List Char) (exponent : Int) : Bool :=
  let ds := ds.dropWhile (· == '0')
  let limit := Nat.pow 2 1024 - Nat.pow 2 970
  if ds.isEmpty then false
  else
    let point := exponent - (ds.length : Int)
    if exponent > 310 then true
    else if exponent < 300 then false
    else limit * Nat.pow 10 (-point).toNat ≤ numberOf 10 ds * Nat.pow 10 point.toNat

def isExponentMark (c : Char) : Bool := c == 'e' || c == 'E'

def decimal? (cs : List Char) : Option Value := do
  let (negative, cs) := sign cs
  let mantissa := cs.takeWhile fun c => !isExponentMark c
  let exponent : Int ← match cs.dropWhile fun c => !isExponentMark c with
    | [] => some 0
    | _ :: es => do
      let (negative, es) := sign es
      let n : Int := numberOf 10 (← digits? Char.isDigit es)
      some (if negative then -n else n)
  let before ← whole? (mantissa.takeWhile (· != '.'))
  let after ← match mantissa.dropWhile (· != '.') with
    | [] => if mantissa.length = cs.length then none else some []
    | _ :: fs => digits? Char.isDigit fs
  let leading := (before ++ after).takeWhile (· == '0')
  let size : Int := exponent + before.length - leading.length
  -- below zero, a number of any size is read
  if !negative && overflows (before ++ after) size then none else some .float

def special? (cs : List Char) : Option Value :=
  let (_, cs) := sign cs
  if cs = "inf".toList ∨ cs = "nan".toList then some .float else none

def field? (lo hi : Nat) (ds : List Char) : Option Nat :=
  if ds.all Char.isDigit && lo ≤ numberOf 10 ds && numberOf 10 ds ≤ hi then some (numberOf 10 ds)
  else none

def isLeap (year : Nat) : Bool := (year % 4 == 0 && year % 100 != 0) || year % 400 == 0

def daysIn (year month : Nat) : Nat :=
  if month = 2 then (if isLeap year then 29 else 28)
  else if month = 4 ∨ month = 6 ∨ month = 9 ∨ month = 11 then 30
  else 31

def day? : List Char → Option (List Char)
  | y1 :: y2 :: y3 :: y4 :: '-' :: m1 :: m2 :: '-' :: d1 :: d2 :: rest => do
    let year ← field? 0 9999 [y1, y2, y3, y4]
    let month ← field? 1 12 [m1, m2]
    let _ ← field? 1 (daysIn year month) [d1, d2]
    return rest
  | _ => none

def time? : List Char → Option (List Char)
  | h1 :: h2 :: ':' :: m1 :: m2 :: ':' :: s1 :: s2 :: rest => do
    let _ ← field? 0 23 [h1, h2]
    let _ ← field? 0 59 [m1, m2]
    let _ ← field? 0 60 [s1, s2]
    match rest with
    | '.' :: d :: ds => if d.isDigit then return ds.dropWhile Char.isDigit else none
    | rest => return rest
  | _ => none

def isOffset : List Char → Bool
  | [] => true
  | ['Z'] => true
  | ['z'] => true
  | [s, h1, h2, ':', m1, m2] =>
    (s == '+' || s == '-') && (field? 0 23 [h1, h2]).isSome && (field? 0 59 [m1, m2]).isSome
  | _ => false

def date? (cs : List Char) : Option Value :=
  match day? cs with
  | some [] => some .date
  | some (t :: rest) =>
    if t == 'T' || t == 't' || t == ' ' then
      (time? rest).bind fun after => if isOffset after then some .date else none
    else none
  | none => (time? cs).bind fun after => if after.isEmpty then some .date else none

def truth? (cs : List Char) : Option Value :=
  if cs = "true".toList then some (.bool true)
  else if cs = "false".toList then some (.bool false)
  else none

def isBare (c : Char) : Bool :=
  c.isAlphanum || c == '_' || c == '+' || c == '-' || c == '.' || c == ':'

def ofBare? (cs : List Char) : Option Value :=
  date? cs <|> integer? cs <|> decimal? cs <|> special? cs <|> truth? cs

/-- A value that is not quoted, and what follows. A blank before a digit parts the date from the
time. -/
def bare? (cs : List Char) : Option (Value × List Char) :=
  let run := cs.takeWhile isBare
  let rest := cs.dropWhile isBare
  let isDay := match day? run with
    | some [] => true
    | _ => false
  match isDay, rest with
  | true, ' ' :: d :: more =>
    if d.isDigit then
      (ofBare? (run ++ ' ' :: (d :: more).takeWhile isBare)).map
        (·, (d :: more).dropWhile isBare)
    else (ofBare? run).map (·, rest)
  | _, _ => (ofBare? run).map (·, rest)

end ClassShape.Toml
