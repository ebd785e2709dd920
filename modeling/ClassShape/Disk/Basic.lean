import ClassShape.Disk.Path

/-! Files and folders. A disk is a tree of folders with a folder in it that relative paths start
from. The system may refuse an access for reasons that the tree does not show, such as missing
permissions. -/
namespace ClassShape

inductive OsError where
  | notFound
  | occupied
  | notFolder
  | isFolder
  | refused (reason : String)
deriving DecidableEq

def OsError.message : OsError → String
  | notFound => "No such file or directory (os error 2)"
  | occupied => "File exists (os error 17)"
  | notFolder => "Not a directory (os error 20)"
  | isFolder => "Is a directory (os error 21)"
  | refused reason => reason

inductive FileTree where
  | file (content : Bytes)
  | folder (entries : List (Bytes × FileTree))

namespace FileTree

def get? : FileTree → List Bytes → Option FileTree
  | t, [] => some t
  | file _, _ :: _ => none
  | folder entries, name :: names => (entries.lookup name).bind fun t => get? t names

def put : FileTree → List Bytes → FileTree → FileTree
  | _, [], new => new
  | file content, _ :: _, _ => file content
  | folder entries, name :: names, new =>
    match entries.lookup name with
    | some t => folder (entries.map fun e => if e.1 = name then (name, put t names new) else e)
    | none => if names.isEmpty then folder (entries ++ [(name, new)]) else folder entries

def isFolder : FileTree → Bool
  | folder _ => true
  | file _ => false

end FileTree

inductive Access where
  | readFile
  | writeFile
  | makeFolder
deriving DecidableEq

structure Disk where
  root : FileTree
  /-- The names of the folders on the way to the one where relative paths start. -/
  home : List Bytes
  /-- Why an access to a place is refused, if it is. -/
  refusal : Access → List Bytes → Option String := fun _ _ => none

namespace Disk

def permit (d : Disk) (access : Access) (place : List Bytes) : Except OsError Unit :=
  match d.refusal access place with
  | some reason => .error (.refused reason)
  | none => .ok ()

def follow (d : Disk) (here : List Bytes) : List Bytes → Except OsError (List Bytes)
  | [] => .ok here
  | piece :: rest =>
    match d.root.get? here with
    | some (.folder _) =>
      if Path.isFiller piece then follow d here rest
      else if piece = Path.up then follow d here.dropLast rest
      else if (d.root.get? (here ++ [piece])).isSome then follow d (here ++ [piece]) rest
      else .error .notFound
    | some (.file _) => .error .notFolder
    | none => .error .notFound

def start (d : Disk) (path : Bytes) : List Bytes := if Path.isAbsolute path then [] else d.home

def locate (d : Disk) (path : Bytes) : Except OsError (List Bytes) :=
  if path = [] then .error .notFound else d.follow (d.start path) (Path.pieces path)

def find (d : Disk) (path : Bytes) : Except OsError FileTree := do
  let here ← d.locate path
  match d.root.get? here with
  | some t => return t
  | none => throw .notFound

def isFolder (d : Disk) (path : Bytes) : Bool :=
  match d.find path with
  | .ok t => t.isFolder
  | .error _ => false

def isFile (d : Disk) (path : Bytes) : Bool :=
  match d.find path with
  | .ok t => !t.isFolder
  | .error _ => false

def exists? (d : Disk) (path : Bytes) : Bool := d.isFolder path || d.isFile path

def read (d : Disk) (path : Bytes) : Except OsError Bytes := do
  let here ← d.locate path
  match d.root.get? here with
  | some (.file content) =>
    d.permit .readFile here
    return content
  | some (.folder _) => throw .isFolder
  | none => throw .notFound

/-- Where a new file or folder would stand: the names of its folder, its own name, and whether a
slash follows it. A path that ends in a dot name, or has no name, leads to a folder that is there
already and gives none. -/
def place (d : Disk) (path : Bytes) : Except OsError (Option (List Bytes × Bytes × Bool)) := do
  if path = [] then throw .notFound
  let ps := Path.pieces path
  let named := (ps.reverse.dropWhile (· == [])).reverse
  match named.getLast? with
  | none => return none
  | some name =>
    let here ← d.follow (d.start path) named.dropLast
    match d.root.get? here with
    | some (.folder _) =>
      if name = [Path.dot] ∨ name = Path.up then return none
      else return some (here, name, named.length < ps.length)
    | _ => throw .notFolder

def write (d : Disk) (path content : Bytes) : Except OsError Disk := do
  match ← d.place path with
  | none => throw .isFolder
  | some (here, name, slash) =>
    if slash then throw .isFolder
    match d.root.get? (here ++ [name]) with
    | some (.folder _) => throw .isFolder
    | _ =>
      d.permit .writeFile (here ++ [name])
      return { d with root := d.root.put (here ++ [name]) (.file content) }

def makeFolder (d : Disk) (path : Bytes) : Except OsError Disk := do
  match ← d.place path with
  | none => throw .occupied
  | some (here, name, _) =>
    match d.root.get? (here ++ [name]) with
    | some _ => throw .occupied
    | none =>
      d.permit .makeFolder (here ++ [name])
      return { d with root := d.root.put (here ++ [name]) (.folder []) }

/-- Makes the first of the given folders; if its own folder is missing, those after it first. Gives
the disk as it is left and what went wrong. -/
def makeFolders (d : Disk) : List Bytes → Disk × Option OsError
  | [] => (d, none)
  | path :: above =>
    match d.makeFolder path with
    | .ok made => (made, none)
    | .error .notFound =>
      match makeFolders d above with
      | (d, some e) => (d, some e)
      | (d, none) =>
        match d.makeFolder path with
        | .ok made => (made, none)
        | .error e => (d, if d.isFolder path then none else some e)
    -- a folder that is there already is as good as one just made
    | .error e => (d, if d.isFolder path then none else some e)

def makePath (d : Disk) (path : Bytes) : Disk × Option OsError :=
  if path = [] then (d, none) else d.makeFolders (Path.ancestors path)

end Disk
end ClassShape
