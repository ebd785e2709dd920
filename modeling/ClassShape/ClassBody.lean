import ClassShape.Token

/-! Class declarations. A header is `class Name {` or `class Name extends Parent {`; its body runs
to the brace that closes the one in the header. Headers inside a body are found too. -/
namespace ClassShape

structure Header where
  name : String
  parent : Option String
  /-- Offset of the opening brace. -/
  brace : Nat
deriving DecidableEq

def Header.match? : List Token → Option (Header × Nat)
  | ⟨.word keyword, _⟩ :: ⟨.word name, _⟩ :: rest =>
    if keyword = "class" ∧ isIdentifier name then
      match rest with
      | ⟨.mark '{', brace⟩ :: _ => some (⟨name, none, brace⟩, 3)
      | ⟨.word extend, _⟩ :: ⟨.word parent, _⟩ :: ⟨.mark '{', brace⟩ :: _ =>
        if extend = "extends" ∧ isIdentifier parent then some (⟨name, some parent, brace⟩, 5)
        else none
      | _ => none
    else none
  | _ => none

/-- The offset of the first closing brace that brings the depth to zero, in a text that starts at
offset `pos` with `depth` braces open. -/
def closingBrace (depth pos : Nat) : List Char → Option Nat
  | [] => none
  | c :: cs =>
    if c = '{' then closingBrace (depth + 1) (pos + c.utf8Size) cs
    else if c = '}' then
      if depth ≤ 1 then some pos else closingBrace (depth - 1) (pos + c.utf8Size) cs
    else closingBrace depth (pos + c.utf8Size) cs

def matchingBrace (source : List Char) (brace : Nat) : Option Nat :=
  closingBrace 0 brace (Text.dropBytes brace source)

structure ClassBody where
  name : String
  parent : Option String
  /-- The text strictly between the braces, trimmed. -/
  text : String
  /-- Offset just past the opening brace. -/
  start : Nat
  /-- Offset of the closing brace. -/
  stop : Nat
deriving DecidableEq

inductive Declaration where
  | complete (body : ClassBody)
  | unclosed (className : String)
deriving DecidableEq

def Header.declaration (source : List Char) (h : Header) : Declaration :=
  match matchingBrace source h.brace with
  | some stop =>
    let text := Text.trim (Text.slice (h.brace + 1) stop source)
    .complete ⟨h.name, h.parent, String.ofList text, h.brace + 1, stop⟩
  | none => .unclosed h.name

def headers (source : List Char) : List Header := sweep Header.match? (Token.scan source)

def declarations (source : String) : List Declaration :=
  (headers source.toList).map (Header.declaration source.toList)

end ClassShape
