import ClassShape.Disk.Text

/-! Collecting the files below a folder, depth first, the entries of a folder in the order of their
names. -/
namespace ClassShape

mutual

def FileTree.files : FileTree → List (List Bytes)
  | .file _ => [[]]
  | .folder entries =>
    ((entryFiles entries).mergeSort fun a b => a.1 ≤ b.1).flatMap fun (name, below) =>
      below.map (name :: ·)

def FileTree.entryFiles : List (Bytes × FileTree) → List (Bytes × List (List Bytes))
  | [] => []
  | (name, t) :: entries => (name, t.files) :: entryFiles entries

end

def lowerByte (b : UInt8) : UInt8 := if 0x41 ≤ b ∧ b ≤ 0x5A then b + 0x20 else b

def lowerAscii (bs : Bytes) : Bytes := bs.map lowerByte

def accepts (extensions : List String) : Option Bytes → Bool
  | some ext =>
    Text.isUtf8 ext && extensions.any fun e => lowerAscii (Text.encode e) = lowerAscii ext
  | none => false

def extensionBelow? (path : Bytes) (names : List Bytes) : Option Bytes :=
  match names.getLast? with
  | some name => Path.nameExtension? name
  | none => Path.extension? path

namespace Disk

def filesBelow (d : Disk) (extensions : List String) (path : Bytes) : List Bytes :=
  match d.find path with
  | .ok t =>
    (t.files.filter fun names => accepts extensions (extensionBelow? path names)).map fun names =>
      names.foldl Path.join path
  | .error _ => []

def collectFolder (d : Disk) (extensions : List String) (path : Bytes) : Step (List Bytes) := do
  let files := d.filesBelow extensions path
  let count := files.length
  let shown := Text.decode path
  Step.log .debug s!"Collecting files from directory: {shown}"
  Logged.logAll (files.map fun file => ⟨.trace, "Found file: " ++ Text.decode file⟩)
  Step.log .debug s!"Collected {count} files from {shown}"
  return files

/-- Expands folders; a file that is named itself is kept whatever its extension. -/
def collect (d : Disk) (extensions : List String) : List Bytes → Step (List Bytes)
  | [] => return []
  | path :: paths => do
    let files ←
      if d.isFolder path then d.collectFolder extensions path
      else if d.isFile path then pure [path]
      else throw (.noInput path)
    return files ++ (← d.collect extensions paths)

end Disk
end ClassShape
