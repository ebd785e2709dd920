import ClassShape.CommandLine.Run

/-! The program: it pictures the paths that the arguments name as a disk, runs on that, and then
shows the log and the output and writes the file that the run has written. -/
namespace ClassShape.Program

def reason : IO.Error → String
  | .permissionDenied .. => "Permission denied (os error 13)"
  | e => toString e

/-- The tree at a path, as the system has it, and the files in it that cannot be read. -/
partial def picture (path : Bytes) : IO (FileTree × List (List Bytes × String)) := do
  let place := (← IO.currentDir) / Text.decode path
  if ← place.isDir then
    let mut entries := []
    let mut unread := []
    for entry in ← place.readDir do
      let name := Text.encode entry.fileName
      try
        let (tree, below) ← picture (Path.join path name)
        entries := entries ++ [(name, tree)]
        unread := unread ++ below.map fun (names, e) => (name :: names, e)
      catch _ => pure ()
    return (.folder entries, unread)
  else
    discard place.metadata
    try return (.file (← IO.FS.readBinFile place).toList, [])
    catch e => return (.file [], [([], reason e)])

def stages (path : Bytes) : List Bytes :=
  let ps := Path.pieces path
  ((List.range ps.length).map fun i => [Path.slash].intercalate (ps.take (i + 1))).filter (· ≠ [])

def refuse (d : Disk) (access : Access) (place : List Bytes) (why : String) : Disk :=
  { d with refusal := fun a p => if a = access ∧ p = place then some why else d.refusal a p }

/-- Adds what is on the way to a path, and all that stands there, to a disk. -/
def addPath (d : Disk) (path : Bytes) : IO Disk := do
  let here ← IO.currentDir
  let mut d := d
  for stage in stages path do
    let place := here / Text.decode stage
    if ← place.isDir then d := (d.makeFolder stage).toOption.getD d
    else if ← place.pathExists then d := (d.write stage []).toOption.getD d
  match d.locate path with
  | .error _ => return d
  | .ok names =>
    let (tree, unread) ← picture path
    return unread.foldl (fun d (below, e) => refuse d .readFile (names ++ below) e)
      { d with root := d.root.put names tree }

def bareDisk : IO Disk := do
  let home := (Path.pieces (Text.encode (toString (← IO.currentDir)))).filter (· ≠ [])
  let root := (List.range home.length).foldl
    (fun t i => t.put (home.take (i + 1)) (.folder [])) (FileTree.folder [])
  return { root, home }

def pathsOf (a : Arguments) : List Bytes :=
  a.reference ++ a.candidate ++ a.config.toList ++ a.output.toList

def save (a : Arguments) (r : RunResult) : IO (Option String) := do
  match a.output, r.exitCode with
  | none, _ => return none
  | some _, 2 => return none
  | some path, _ =>
    let content := match r.disk.find path with
      | .ok (.file content) => content
      | _ => []
    try
      match Path.parent? path with
      | some parent => if parent ≠ [] then IO.FS.createDirAll (Text.decode parent)
      | none => pure ()
      IO.FS.writeBinFile (Text.decode path) (ByteArray.mk content.toArray)
      return none
    catch e => return some (reason e)

end ClassShape.Program

open ClassShape in
def main (args : List String) : IO UInt32 := do
  let readers := Readers.standard
  let args := args.map Text.encode
  let request := readers.request? args
  let paths := match request with
    | some (.compare a) => Program.pathsOf a
    | _ => []
  let disk ← paths.foldlM Program.addPath (← Program.bareDisk)
  let mut result := run readers disk args
  if let some (.compare a) := request then
    if let some why ← Program.save a result.value then
      -- the disk as pictured could not show that the output would be refused
      result := run readers { disk with refusal := fun access place =>
        if access = .readFile then disk.refusal access place else some why } args
  let rank := logRank (← IO.getEnv "RUST_LOG") (Request.verbosity request)
  for line in shownLines rank result.records do
    IO.eprintln line
  if request.isNone then IO.eprintln usageText
  IO.print result.value.output
  return result.value.exitCode.toUInt32
