import ClassShape.Text.Utf8

/-! Paths: byte strings with names between slashes. An empty name or a single dot is passed over,
except for a dot that starts a relative path. -/
namespace ClassShape

namespace Text
variable {α : Type} [DecidableEq α]

def splitParts (sep : α) : List α → List α × List (List α)
  | [] => ([], [])
  | c :: cs =>
    let (head, tail) := splitParts sep cs
    if c = sep then ([], head :: tail) else (c :: head, tail)

def split (sep : α) (cs : List α) : List (List α) :=
  let (head, tail) := splitParts sep cs
  head :: tail

end Text

namespace Path

def slash : UInt8 := 0x2F

def dot : UInt8 := 0x2E

def up : Bytes := [dot, dot]

def isAbsolute (path : Bytes) : Bool := path.head? == some slash

def pieces (path : Bytes) : List Bytes := Text.split slash path

def isFiller (piece : Bytes) : Bool := piece == [] || piece == [dot]

def dropFillers (ps : List Bytes) : List Bytes := (ps.reverse.dropWhile isFiller).reverse

def trimPieces (absolute : Bool) : List Bytes → List Bytes
  | [] => []
  | p :: ps => if !absolute && p == [dot] then p :: dropFillers ps else dropFillers (p :: ps)

def parent? (path : Bytes) : Option Bytes :=
  let absolute := isAbsolute path
  let ps := if absolute then (pieces path).drop 1 else pieces path
  let real := trimPieces absolute ps
  if real.isEmpty then none
  else
    let rest := [slash].intercalate (trimPieces absolute real.dropLast)
    some (if absolute then slash :: rest else rest)

def ancestors (path : Bytes) : List Bytes :=
  match parent? path with
  | some p =>
    if h : p.length < path.length ∧ p ≠ [] then
      have := h.1
      path :: ancestors p
    else [path]
  | none => [path]
termination_by path.length

def join (path name : Bytes) : Bytes :=
  if path.isEmpty || path.getLast? == some slash then path ++ name else path ++ slash :: name

def fileName? (path : Bytes) : Option Bytes :=
  let real := trimPieces (isAbsolute path) (pieces path)
  match real.getLast? with
  | some name => if isFiller name || name == up then none else some name
  | none => none

def nameExtension? (name : Bytes) : Option Bytes :=
  let suffix := (name.reverse.takeWhile (· != dot)).reverse
  let stem := name.length - suffix.length - 1
  if stem = 0 then none else some suffix

def extension? (path : Bytes) : Option Bytes := (fileName? path).bind nameExtension?

end Path
end ClassShape
