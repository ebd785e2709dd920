import ClassShape.Batch.Scan
import ClassShape.CommandLine.Arguments
import ClassShape.CommandLine.Help
import ClassShape.Report.Basic
import ClassShape.Report.Comparison
import ClassShape.Report.Json

/-! A run of the program: the arguments and the disk decide the exit code, the standard output, the
log and what is left on the disk. How arguments and settings are spelled is left to two readers. -/
namespace ClassShape

structure Readers where
  request? : List Bytes → Option Request
  settings? : String → Option Settings

def Readers.standard : Readers := ⟨Request.read?, Settings.parse?⟩

variable (readers : Readers)

def Arguments.settings (a : Arguments) (d : Disk) : Step Settings := do
  let s ← match a.config with
    | some path => Settings.load readers.settings? d path
    | none => pure {}
  let scan := { s.scan with
    maxFiles := a.maxFiles.or s.scan.maxFiles
    threads := a.threads.or s.scan.threads
    verboseErrors := s.scan.verboseErrors || a.verbosity > 0 }
  let labels : Labels :=
    ⟨a.referenceLabel.getD s.labels.reference, a.candidateLabel.getD s.labels.candidate⟩
  return ⟨scan, labels⟩

def inSide {α : Type} (label : String) : Except Failure α → Except Failure α
  | .ok a => .ok a
  | .error e => .error (.scanSide label e)

def scanSide (options : ScanOptions) (d : Disk) (label : String) (paths : List Bytes) :
    Step ScanResult := do
  let r ← ExceptT.mk (inSide label <$> (scanPaths options d paths).run)
  let errors := r.errors.length
  let classes := r.classes.length
  let total := r.stats.totalFiles
  let skipped := r.stats.skipped
  let rate := r.stats.successRate.toFixed 0
  unless r.errors.isEmpty do
    Step.log .warn s!"{label}: {errors} advisory errors (run with -v to list them)"
  Step.log .info
    s!"{label}: {classes} classes from {total} files ({skipped} skipped, {rate}% with classes)"
  return r

def Arguments.report (a : Arguments) (d : Disk) : Step Report := do
  let s ← a.settings readers d
  let reference ← scanSide s.scan d s.labels.reference a.reference
  let candidate ← scanSide s.scan d s.labels.candidate a.candidate
  let totals := reference.stats.merge candidate.stats
  let files := totals.totalFiles
  let mean := totals.classesPerFile.toFixed 1
  Step.log .info s!"Parsed {files} files in total, {mean} classes per file with classes"
  Logged.logAll (compareRecords s.labels reference.classes candidate.classes)
  return compareReport s.labels reference.classes candidate.classes

def Report.render (r : Report) : Format → String
  | .text => r.renderText
  | .json => r.renderJson ++ "\n"

structure RunResult where
  exitCode : Nat
  output : String
  disk : Disk

def RunResult.failed (d : Disk) (e : Failure) : Logged RunResult := do
  Logged.log .error e.message
  return ⟨2, "", d⟩

def Arguments.run (a : Arguments) (d : Disk) : Logged RunResult := do
  match ← (a.report readers d).run with
  | .error e => RunResult.failed d e
  | .ok report =>
    let text := report.render (a.format.getD .text)
    let exitCode := if report.isMatch then 0 else 1
    match a.output with
    | none => return ⟨exitCode, text, d⟩
    | some path =>
      match ← d.writeText path text with
      | ⟨d, none⟩ => return ⟨exitCode, "", d⟩
      | ⟨d, some e⟩ => RunResult.failed d e

def versionText : String := "class-differ 0.1.0\n"

def run (d : Disk) (args : List Bytes) : Logged RunResult :=
  match readers.request? args with
  | none => return ⟨2, "", d⟩
  | some .help => return ⟨0, helpText, d⟩
  | some .version => return ⟨0, versionText, d⟩
  | some (.compare a) => a.run readers d

/-- The most detailed log rank that is shown: the one that the environment names, or else what the
arguments ask for. -/
def logRank (filter : Option String) (verbosity : Nat) : Nat :=
  match filter with
  | none => if verbosity = 0 then 2 else if verbosity = 1 then 3 else 4
  | some name =>
    match String.ofList (name.toList.map Char.toLower) with
    | "error" => 1
    | "warn" => 2
    | "info" => 3
    | "debug" => 4
    | "trace" => 5
    | "" => 1
    | _ => 0

def Request.verbosity : Option Request → Nat
  | some (.compare a) => a.verbosity
  | _ => 0

end ClassShape
