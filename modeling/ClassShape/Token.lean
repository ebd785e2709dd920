import ClassShape.Text.Alphanumeric
import ClassShape.Text.Basic

/-! Tokens. A lexeme is a word (identifier characters and the brackets of type expressions) or a
single other character; blanks separate lexemes and are dropped. A token is a lexeme with the
byte offset at which it starts. Patterns of tokens are looked for in a sweep from left to right. -/
namespace ClassShape

inductive Lexeme where
  | word (text : String)
  | mark (char : Char)
deriving DecidableEq

structure Token where
  lexeme : Lexeme
  start : Nat
deriving DecidableEq

def isIdentifierChar (c : Char) : Bool := Text.isAlphanumeric c || c == '_'

def isWordChar (c : Char) : Bool :=
  isIdentifierChar c || c == '<' || c == '>' || c == '[' || c == ']'

def isIdentifier (text : String) : Bool := text.toList.all isIdentifierChar

namespace Lexeme

def text : Lexeme → String
  | word text => text
  | mark c => c.toString

end Lexeme

namespace Token

def text (t : Token) : String := t.lexeme.text

def stop (t : Token) : Nat := t.start + Text.byteLength t.text.toList

def scanFrom (pos : Nat) : List Char → List Token
  | [] => []
  | c :: cs =>
    if Text.isBlank c then scanFrom (pos + c.utf8Size) cs
    else if isWordChar c then
      let word := c :: cs.takeWhile isWordChar
      ⟨.word (String.ofList word), pos⟩ ::
        scanFrom (pos + Text.byteLength word) (cs.dropWhile isWordChar)
    else ⟨.mark c, pos⟩ :: scanFrom (pos + c.utf8Size) cs
termination_by cs => cs.length
decreasing_by
  · simp
  · exact Nat.lt_succ_of_le (Text.length_dropWhile_le _ cs)
  · simp

def scan (cs : List Char) : List Token := scanFrom 0 cs

end Token

def tokenize (text : String) : List Token := Token.scan text.toList

/-- The matches of `pattern`, each with the number of elements that it spans, once `skip` more
elements have been passed over. -/
def sweepFrom {α β : Type} (pattern : List α → Option (β × Nat)) : Nat → List α → List β
  | _, [] => []
  | skip + 1, _ :: xs => sweepFrom pattern skip xs
  | 0, x :: xs =>
    match pattern (x :: xs) with
    | some (b, n) => b :: sweepFrom pattern (n - 1) xs
    | none => sweepFrom pattern 0 xs

def sweep {α β : Type} (pattern : List α → Option (β × Nat)) (xs : List α) : List β :=
  sweepFrom pattern 0 xs

end ClassShape
