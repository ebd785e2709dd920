import ClassShape.Toml.Scalar

/-! Keys and values of TOML, with arrays and inline tables. -/
namespace ClassShape.Toml

/-- Tables and arrays may be nested, and keys dotted, less deep than this. -/
def depthLimit : Nat := 80

def isKeyChar (c : Char) : Bool := c.isAlphanum || c == '-' || c == '_'

def simpleKey? (cs : List Char) : Option (String × List Char) :=
  match lineText? cs with
  | some key => some key
  | none =>
    let key := cs.takeWhile isKeyChar
    if key.isEmpty then none else some (String.ofList key, cs.dropWhile isKeyChar)

def keyParts? : Nat → List Char → Option (List String × List Char)
  | 0, _ => none
  | limit + 1, cs => do
    let (part, rest) ← simpleKey? (skipSpace cs)
    match skipSpace rest with
    | '.' :: rest => do
      let (parts, rest) ← keyParts? limit rest
      return (part :: parts, rest)
    | rest => return ([part], rest)

def key? (cs : List Char) : Option (List String × String × List Char) := do
  let (parts, rest) ← keyParts? (depthLimit - 1) cs
  let name ← parts.getLast?
  return (parts.dropLast, name, rest)

/-- A table that grows key by key: one that a dotted key made may be extended by others. -/
inductive Draft where
  | value (v : Value)
  | dotted (fields : List (String × Draft))

def addKey (v : Value) (name : String) : List String → List (String × Draft) →
    Option (List (String × Draft))
  | [], fields => if (fields.lookup name).isSome then none else some (fields ++ [(name, .value v)])
  | part :: path, fields =>
    match fields.lookup part with
    | none => (addKey v name path []).map fun inner => fields ++ [(part, .dotted inner)]
    | some (.dotted inner) => (addKey v name path inner).map fun inner =>
      fields.map fun f => if f.1 = part then (part, .dotted inner) else f
    | some (.value _) => none

mutual

def Draft.finish : Draft → Value
  | .value v => v
  | .dotted fields => .table (Draft.finishAll fields)

def Draft.finishAll : List (String × Draft) → List (String × Value)
  | [] => []
  | (name, d) :: fields => (name, d.finish) :: Draft.finishAll fields

end

mutual

/-- A value that starts here, and what follows; `depth` more arrays or inline tables may be opened.
Every call takes one unit of fuel. -/
def valueWith (fuel depth : Nat) (cs : List Char) : Option (Value × List Char) :=
  match fuel with
  | 0 => none
  | fuel + 1 =>
    match cs with
    | '[' :: rest =>
      match depth with
      | 0 => none
      | depth + 1 => (itemsWith fuel depth [] rest).map fun (items, rest) => (.array items, rest)
    | '{' :: rest =>
      match depth with
      | 0 => none
      | depth + 1 =>
        match skipSpace rest with
        | '}' :: rest => some (.table [], rest)
        | rest => (fieldsWith fuel depth [] rest).map fun (fields, rest) =>
          (.table (Draft.finishAll fields), rest)
    | cs =>
      match cs.head? with
      | some '"' => (text? cs).map fun (s, rest) => (.string s, rest)
      | some '\'' => (text? cs).map fun (s, rest) => (.string s, rest)
      | _ => bare? cs

def itemsWith (fuel depth : Nat) (done : List Value) (cs : List Char) :
    Option (List Value × List Char) :=
  match fuel with
  | 0 => none
  | fuel + 1 =>
    match skipLines cs with
    | ']' :: rest => some (done, rest)
    | cs => do
      let (v, rest) ← valueWith fuel depth cs
      match skipLines rest with
      | ',' :: rest => itemsWith fuel depth (done ++ [v]) rest
      | ']' :: rest => some (done ++ [v], rest)
      | _ => none

def fieldsWith (fuel depth : Nat) (done : List (String × Draft)) (cs : List Char) :
    Option (List (String × Draft) × List Char) :=
  match fuel with
  | 0 => none
  | fuel + 1 => do
    let (path, name, rest) ← key? cs
    match rest with
    | '=' :: rest => do
      let (v, rest) ← valueWith fuel depth (skipSpace rest)
      let done ← addKey v name path done
      match skipSpace rest with
      | ',' :: rest => fieldsWith fuel depth done rest
      | '}' :: rest => some (done, rest)
      | _ => none
    | _ => none

end

/-- A value that starts here, and what follows. Each call of the reader but the first is made
after a character was taken or for one that is, so twice the length is fuel enough. -/
def value? (cs : List Char) : Option (Value × List Char) :=
  valueWith (2 * cs.length + 2) (depthLimit - 1) cs

end ClassShape.Toml
