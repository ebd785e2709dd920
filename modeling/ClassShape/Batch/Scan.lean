import ClassShape.Disk.Collect
import ClassShape.Narration
import ClassShape.Number.Binary64
import ClassShape.Settings

/-! Scanning a batch of files: every file is read and parsed on its own, then the classes of all
are pooled and the statistics added up. -/
namespace ClassShape
open Number

structure Stats where
  totalFiles : Nat := 0
  /-- Classes found, before pooling. -/
  totalClasses : Nat := 0
  emptyFiles : Nat := 0
  filesWithClasses : Nat := 0
  errorFiles : Nat := 0
  errorPaths : List Bytes := []
  advisories : Nat := 0
deriving DecidableEq

namespace Stats

def merge (s t : Stats) : Stats where
  totalFiles := s.totalFiles + t.totalFiles
  totalClasses := s.totalClasses + t.totalClasses
  emptyFiles := s.emptyFiles + t.emptyFiles
  filesWithClasses := s.filesWithClasses + t.filesWithClasses
  errorFiles := s.errorFiles + t.errorFiles
  errorPaths := s.errorPaths ++ t.errorPaths
  advisories := s.advisories + t.advisories

def skipped (s : Stats) : Nat := s.emptyFiles + s.errorFiles

def successRate (s : Stats) : Binary64 :=
  if s.totalFiles = 0 then .zero
  else ((Binary64.ofNat s.filesWithClasses).div (.ofNat s.totalFiles)).mul (.ofNat 100)

def classesPerFile (s : Stats) : Binary64 :=
  if s.filesWithClasses = 0 then .zero
  else (Binary64.ofNat s.totalClasses).div (.ofNat s.filesWithClasses)

end Stats

abbrev FileOutcome := Except Failure Outcome

namespace FileOutcome

def classes : FileOutcome → List ClassRecord
  | .ok o => o.classes
  | .error _ => []

def messages : FileOutcome → List String
  | .ok o => o.advisories.map Advisory.message
  | .error e => [e.message]

def stats (path : Bytes) (o : FileOutcome) : Stats :=
  let base : Stats := { totalFiles := 1, advisories := o.messages.length }
  match o with
  | .error _ => { base with errorFiles := 1, errorPaths := [path] }
  | .ok outcome =>
    if outcome.classes.isEmpty then { base with emptyFiles := 1 }
    else { base with filesWithClasses := 1, totalClasses := outcome.classes.length }

end FileOutcome

def parseContent (options : ScanOptions) (origin content : String) : Logged Outcome := do
  let size := Text.byteLength content.toList
  let outcome := parse content
  let count := outcome.classes.length
  Logged.log .trace s!"{origin}: {size} bytes, starting parse"
  Logged.logAll (parseRecords content)
  if outcome.classes.isEmpty then Logged.log .debug s!"No classes found in {origin}"
  else Logged.log .debug s!"Found {count} classes in {origin}"
  let level : LogLevel := if options.verboseErrors then .warn else .debug
  Logged.logAll (outcome.advisories.map fun a => ⟨level, s!"{origin}: " ++ a.message⟩)
  return outcome

def parseFile (options : ScanOptions) (d : Disk) (path : Bytes) : Step Outcome := do
  Step.log .debug ("Processing file: " ++ Text.decode path)
  let content ← d.readText path
  parseContent options (Text.decode path) content

/-- A file that cannot be read is no failure of the batch. -/
def scanFile (options : ScanOptions) (d : Disk) (path : Bytes) : Logged FileOutcome := do
  let result ← (parseFile options d path).run
  match result with
  | .ok _ => pure ()
  | .error e => Logged.log .warn ("Failed to read " ++ Text.decode path ++ ": " ++ e.message)
  return result

structure ScanResult where
  classes : List ClassRecord
  errors : List String
  stats : Stats
  files : List Bytes

def ScanResult.ofOutcomes (outcomes : List (Bytes × FileOutcome)) : ScanResult where
  classes := pool (outcomes.flatMap fun (_, o) => o.classes)
  errors := outcomes.flatMap fun (path, o) => o.messages.map fun m => Text.decode path ++ ": " ++ m
  stats := (outcomes.map fun (path, o) => o.stats path).foldl Stats.merge {}
  files := outcomes.map (·.1)

def limitFiles (options : ScanOptions) (files : List Bytes) : List Bytes :=
  match options.maxFiles with
  | some limit => files.take limit
  | none => files

def scanEach (options : ScanOptions) (d : Disk) : List Bytes → Logged (List (Bytes × FileOutcome))
  | [] => return []
  | path :: paths => do
    let outcome ← scanFile options d path
    return (path, outcome) :: (← scanEach options d paths)

def scanFiles (options : ScanOptions) (d : Disk) (files : List Bytes) : Logged ScanResult := do
  let chosen := limitFiles options files
  let count := chosen.length
  let total := files.length
  if count < total then Logged.log .warn s!"Limiting to {count} files out of {total}"
  Logged.log .info s!"Processing {count} files"
  let outcomes ← scanEach options d chosen
  let result := ScanResult.ofOutcomes outcomes
  let found := result.stats.totalClasses
  Logged.log .info s!"Processed {count} files, found {found} classes"
  Logged.logAll (Pool.records (outcomes.flatMap fun (_, o) => o.classes))
  return result

def scanPaths (options : ScanOptions) (d : Disk) (paths : List Bytes) : Step ScanResult := do
  let files ← d.collect options.extensions paths
  let count := files.length
  Step.log .info s!"Found {count} files to process"
  scanFiles options d files

def scanFolder (options : ScanOptions) (d : Disk) (path : Bytes) : Step ScanResult := do
  Step.log .info ("Scanning directory: " ++ Text.decode path)
  let files ← d.collectFolder options.extensions path
  scanFiles options d files

end ClassShape
