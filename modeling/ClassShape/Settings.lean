import ClassShape.Disk.Text
import ClassShape.Json.Basic
import ClassShape.Report.Basic
import ClassShape.Toml.Document

/-! Settings of a run, as read from a TOML text or from JSON. What is not set has its default. -/
namespace ClassShape

def defaultExtensions : List String := ["java"]

structure ScanOptions where
  /-- Log every advisory as a warning. -/
  verboseErrors : Bool := false
  maxFiles : Option Nat := none
  threads : Option Nat := none
  extensions : List String := defaultExtensions
deriving DecidableEq

structure Settings where
  scan : ScanOptions := {}
  labels : Labels := {}
deriving DecidableEq

namespace Toml.Value

/-- A record has its fields by name in a table and by place in an array. A date counts as a table
in which no name is known. -/
def isRecord : Value → Bool
  | table _ => true
  | array _ => true
  | date => true
  | _ => false

def slot? (place : Nat) (name : String) : Value → Option Value
  | table fields => fields.lookup name
  | array items => items[place]?
  | _ => none

def asString? : Value → Option String
  | string s => some s
  | _ => none

def asBool? : Value → Option Bool
  | bool b => some b
  | _ => none

def asCount? : Value → Option Nat
  | integer n => if 0 ≤ n then some n.toNat else none
  | _ => none

def asStrings? : Value → Option (List String)
  | array items => items.mapM asString?
  | _ => none

def orDefault {α : Type} (a : α) (f : Value → Option α) : Option Value → Option α
  | none => some a
  | some v => f v

end Toml.Value

open Toml.Value in
def ScanOptions.ofToml? (v : Toml.Value) : Option ScanOptions := do
  guard v.isRecord
  let verbose ← orDefault false asBool? (v.slot? 0 "verbose_errors")
  let maxFiles ← orDefault none (fun v => (asCount? v).map some) (v.slot? 1 "max_files")
  let threads ← orDefault none (fun v => (asCount? v).map some) (v.slot? 2 "parallel_threads")
  let extensions ← orDefault defaultExtensions asStrings? (v.slot? 3 "extensions")
  return ⟨verbose, maxFiles, threads, extensions⟩

open Toml.Value in
def Labels.ofToml? (v : Toml.Value) : Option Labels := do
  guard v.isRecord
  let reference ← orDefault "reference" asString? (v.slot? 0 "reference")
  let candidate ← orDefault "candidate" asString? (v.slot? 1 "candidate")
  return ⟨reference, candidate⟩

open Json in
def ScanOptions.ofJson? (j : Json) : Option ScanOptions := do
  guard (j.isPartialRecord 4)
  let verbose ← orDefault false asBool? (j.slot? 0 "verbose_errors")
  let maxFiles ← may asCount? (j.slot? 1 "max_files")
  let threads ← may asCount? (j.slot? 2 "parallel_threads")
  let extensions ← orDefault defaultExtensions (asList? asString?) (j.slot? 3 "extensions")
  return ⟨verbose, maxFiles, threads, extensions⟩

def ScanOptions.toJson (o : ScanOptions) : Json :=
  .object [("verbose_errors", .bool o.verboseErrors), ("max_files", .ofOption .count o.maxFiles),
    ("parallel_threads", .ofOption .count o.threads), ("extensions", .strings o.extensions)]

namespace Settings

def ofToml? (v : Toml.Value) : Option Settings := do
  guard v.isRecord
  let scan ← Toml.Value.orDefault {} ScanOptions.ofToml? (v.slot? 0 "scan")
  let labels ← Toml.Value.orDefault {} Labels.ofToml? (v.slot? 1 "labels")
  return ⟨scan, labels⟩

def parse? (text : String) : Option Settings :=
  (Toml.parse? text).bind fun fields => ofToml? (.table fields)

def load (read? : String → Option Settings) (d : Disk) (path : Bytes) : Step Settings := do
  let shown := Text.decode path
  Step.log .debug s!"Loading configuration from {shown}"
  let text ← d.readText path
  match read? text with
  | none => throw (.settingsFile path)
  | some settings =>
    Step.log .info s!"Loaded configuration from {shown}"
    return settings

end Settings
end ClassShape
