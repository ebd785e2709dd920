import ClassShape.Json.Basic

/-! JSON texts. The compact form has no blanks; the pretty form puts each item on a line of its
own, two spaces deeper than what holds it. -/
namespace ClassShape.Json

def hexDigit (n : Nat) : Char := Nat.digitChar (n % 16)

def escapeChar (c : Char) : List Char :=
  if c = '"' then ['\\', '"']
  else if c = '\\' then ['\\', '\\']
  else if c.toNat = 8 then ['\\', 'b']
  else if c.toNat = 9 then ['\\', 't']
  else if c.toNat = 10 then ['\\', 'n']
  else if c.toNat = 12 then ['\\', 'f']
  else if c.toNat = 13 then ['\\', 'r']
  else if c.toNat < 32 then ['\\', 'u', '0', '0', hexDigit (c.toNat / 16), hexDigit c.toNat]
  else [c]

def quote (s : String) : List Char := '"' :: s.toList.flatMap escapeChar ++ ['"']

def newline (depth : Nat) : List Char := '\n' :: List.replicate (2 * depth) ' '

mutual

def compactChars : Json → List Char
  | null => "null".toList
  | bool true => "true".toList
  | bool false => "false".toList
  | count n => Nat.toDigits 10 n
  | number spelling => spelling.toList
  | string s => quote s
  | array [] => "[]".toList
  | array (j :: js) => '[' :: compactChars j ++ compactItems js ++ [']']
  | object [] => ['{', '}']
  | object ((k, v) :: fs) =>
    '{' :: quote k ++ ':' :: compactChars v ++ compactFields fs ++ ['}']

def compactItems : List Json → List Char
  | [] => []
  | j :: js => ',' :: compactChars j ++ compactItems js

def compactFields : List (String × Json) → List Char
  | [] => []
  | (k, v) :: fs => ',' :: quote k ++ ':' :: compactChars v ++ compactFields fs

end

mutual

/-- The pretty form of a value whose first character stands on a line at the given depth. -/
def prettyChars (depth : Nat) : Json → List Char
  | null => "null".toList
  | bool true => "true".toList
  | bool false => "false".toList
  | count n => Nat.toDigits 10 n
  | number spelling => spelling.toList
  | string s => quote s
  | array [] => "[]".toList
  | array (j :: js) =>
    '[' :: newline (depth + 1) ++ prettyChars (depth + 1) j ++ prettyItems (depth + 1) js ++
      newline depth ++ [']']
  | object [] => ['{', '}']
  | object ((k, v) :: fs) =>
    '{' :: newline (depth + 1) ++ quote k ++ ':' :: ' ' :: prettyChars (depth + 1) v ++
      prettyFields (depth + 1) fs ++ newline depth ++ ['}']

def prettyItems (depth : Nat) : List Json → List Char
  | [] => []
  | j :: js => ',' :: newline depth ++ prettyChars depth j ++ prettyItems depth js

def prettyFields (depth : Nat) : List (String × Json) → List Char
  | [] => []
  | (k, v) :: fs =>
    ',' :: newline depth ++ quote k ++ ':' :: ' ' :: prettyChars depth v ++ prettyFields depth fs

end

def compact (j : Json) : String := String.ofList (compactChars j)

def pretty (j : Json) : String := String.ofList (prettyChars 0 j)

end ClassShape.Json
