import ClassShape.Toml.Value

/-! TOML documents: keys with values, under table headers. A table may be defined once. -/
namespace ClassShape.Toml

/-- How a table came to be: by its own header, on the way to a deeper header, or by a dotted key. -/
inductive Origin where
  | header
  | passage
  | dotted
deriving DecidableEq

inductive Item where
  | value (v : Value)
  | table (origin : Origin) (fields : List (String × Item))
  /-- An array of tables, the last of which is still being filled. -/
  | tables (closed : List (List (String × Item))) (last : List (String × Item))

abbrev Fields := List (String × Item)

def alter (fields : Fields) (name : String) (f : Option Item → Option Item) : Option Fields :=
  match fields.lookup name with
  | none => (f none).map fun item => fields ++ [(name, item)]
  | some old => (f (some old)).map fun item =>
    fields.map fun e => if e.1 = name then (name, item) else e

def addField (v : Value) (name : String) (dotted : Bool) : Origin → List String → Fields →
    Option Fields
  | origin, [], fields =>
    -- a dotted key adds to a table that dotted keys made, and no other key does
    if (origin == .dotted) != dotted then none
    else alter fields name fun
      | none => some (.value v)
      | some _ => none
  | _, part :: path, fields =>
    alter fields part fun
      | none => (addField v name dotted .dotted path []).map (.table .dotted)
      | some (.table .header _) => none
      | some (.table origin inner) =>
        (addField v name dotted origin path inner).map (.table origin)
      | some (.tables closed last) =>
        (addField v name dotted .header path last).map (.tables closed)
      | some (.value _) => none

def reach (f : Fields → Option Fields) : List String → Fields → Option Fields
  | [], fields => f fields
  | part :: path, fields =>
    alter fields part fun
      | none => (reach f path []).map (.table .passage)
      | some (.table origin inner) => (reach f path inner).map (.table origin)
      | some (.tables closed last) => (reach f path last).map (.tables closed)
      | some (.value _) => none

def openTable (path : List String) (name : String) (root : Fields) : Option Fields :=
  reach (fun fields => alter fields name fun
    | none => some (.table .header [])
    | some (.table .passage inner) => some (.table .header inner)
    | some _ => none) path root

def openElement (path : List String) (name : String) (root : Fields) : Option Fields :=
  reach (fun fields => alter fields name fun
    | none => some (.tables [] [])
    | some (.tables closed last) => some (.tables (closed ++ [last]) [])
    | some _ => none) path root

structure Document where
  root : Fields
  /-- The path of the last header. -/
  current : List String

def header? (doc : Document) (cs : List Char) : Option (Document × List Char) :=
  match cs with
  | '[' :: rest => do
    let (path, name, rest) ← key? rest
    match rest with
    | ']' :: ']' :: rest =>
      return (⟨← openElement path name doc.root, path ++ [name]⟩, ← endLine? rest)
    | _ => none
  | _ => do
    let (path, name, rest) ← key? cs
    match rest with
    | ']' :: rest => return (⟨← openTable path name doc.root, path ++ [name]⟩, ← endLine? rest)
    | _ => none

def keyValue? (doc : Document) (cs : List Char) : Option (Document × List Char) := do
  let (path, name, rest) ← key? cs
  match rest with
  | '=' :: rest => do
    let (v, rest) ← value? (skipSpace rest)
    let add := addField v name (!path.isEmpty) .header path
    return (⟨← reach add doc.current doc.root, doc.current⟩, ← endLine? rest)
  | _ => none

def expression? (doc : Document) (cs : List Char) : Option (Document × List Char) :=
  match cs with
  | '#' :: _ => (endLine? cs).map (doc, ·)
  | '\n' :: _ => (newline? cs).map (doc, ·)
  | '\r' :: _ => (newline? cs).map (doc, ·)
  | '[' :: rest => header? doc rest
  | _ => keyValue? doc cs

/-- Reads expressions to the end; each must take something from the text. -/
def documentFrom (doc : Document) (cs : List Char) : Option Document :=
  match skipSpace cs with
  | [] => some doc
  | c :: rest =>
    match expression? doc (c :: rest) with
    | none => none
    | some (doc, after) =>
      if _h : after.length < cs.length then documentFrom doc after else none
termination_by cs.length

mutual

def Item.finish : Item → Value
  | .value v => v
  | .table _ fields => .table (Item.finishFields fields)
  | .tables closed last => .array (Item.finishTables closed ++ [.table (Item.finishFields last)])

def Item.finishFields : List (String × Item) → List (String × Value)
  | [] => []
  | (name, item) :: fields => (name, item.finish) :: Item.finishFields fields

def Item.finishTables : List (List (String × Item)) → List Value
  | [] => []
  | fields :: rest => .table (Item.finishFields fields) :: Item.finishTables rest

end

def dropMark (cs : List Char) : List Char :=
  match cs with
  | c :: rest => if c.toNat = 0xFEFF then rest else cs
  | [] => []

def parse? (text : String) : Option (List (String × Value)) :=
  (documentFrom ⟨[], []⟩ (dropMark text.toList)).map fun doc => Item.finishFields doc.root

end ClassShape.Toml
