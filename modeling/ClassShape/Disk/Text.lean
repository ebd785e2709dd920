import ClassShape.Disk.Basic
import ClassShape.Log

/-! Reading and writing texts on a disk, and what can stop a run. -/
namespace ClassShape

inductive Failure where
  | readFile (path : Bytes) (cause : OsError)
  | writeFile (path : Bytes) (cause : OsError)
  | makeFolder (path : Bytes) (cause : OsError)
  | noInput (path : Bytes)
  | settings
  | settingsFile (path : Bytes)
  | scanSide (label : String) (cause : Failure)
deriving DecidableEq

def Failure.message : Failure → String
  | readFile path cause => "Failed to read file " ++ Text.decode path ++ ": " ++ cause.message
  | writeFile path cause => "Failed to write file " ++ Text.decode path ++ ": " ++ cause.message
  | makeFolder path cause =>
    "Failed to create directory " ++ Text.decode path ++ ": " ++ cause.message
  | noInput path => "Input path does not exist: " ++ Text.decode path
  | settings => "Invalid configuration"
  | settingsFile path =>
    "Failed to load configuration from " ++ Text.decode path ++ ": Invalid configuration"
  | scanSide label cause => s!"Failed to scan {label} inputs: " ++ cause.message

abbrev Step := ExceptT Failure Logged

def Step.log (level : LogLevel) (message : String) : Step Unit := Logged.log level message

structure Attempt where
  disk : Disk
  failure : Option Failure

namespace Disk

/-- Makes a folder unless something is there already, be it a file. -/
def ensureFolder (d : Disk) (path : Bytes) : Logged Attempt := do
  if d.exists? path then return ⟨d, none⟩
  Logged.log .debug ("Creating directory: " ++ Text.decode path)
  let (d, e) := d.makePath path
  return ⟨d, e.map (.makeFolder path)⟩

def readText (d : Disk) (path : Bytes) : Step String := do
  match d.read path with
  | .error e => throw (.readFile path e)
  | .ok content =>
    unless Text.isUtf8 content do
      Step.log .debug (Text.decode path ++ " is not valid UTF-8, decoding lossily")
    return Text.decode content

def ensureParent (d : Disk) (path : Bytes) : Logged Attempt :=
  match Path.parent? path with
  | some parent => if parent = [] then pure ⟨d, none⟩ else d.ensureFolder parent
  | none => pure ⟨d, none⟩

def writeText (d : Disk) (path : Bytes) (text : String) : Logged Attempt := do
  match ← d.ensureParent path with
  | ⟨d, some e⟩ => return ⟨d, some e⟩
  | ⟨d, none⟩ =>
    match d.write path (Text.encode text) with
    | .ok written => return ⟨written, none⟩
    | .error e => return ⟨d, some (.writeFile path e)⟩

end Disk
end ClassShape
