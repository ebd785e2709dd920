import ClassShape.Text.Utf8

/-! The arguments of the command line, each a byte string. An option that takes values takes them
from the arguments after it, or one from behind an equals sign or, if its name is a single letter,
from the rest of its own argument. -/
namespace ClassShape

inductive Format where
  | text
  | json
deriving DecidableEq

structure Arguments where
  reference : List Bytes := []
  candidate : List Bytes := []
  config : Option Bytes := none
  referenceLabel : Option String := none
  candidateLabel : Option String := none
  format : Option Format := none
  output : Option Bytes := none
  maxFiles : Option Nat := none
  threads : Option Nat := none
  noProgress : Bool := false
  verbosity : Nat := 0
deriving DecidableEq

inductive Request where
  | compare (args : Arguments)
  | help
  | version
deriving DecidableEq

namespace Arguments

inductive Switch where
  | noProgress
  | verbose
  | help
  | version
deriving DecidableEq

inductive Valued where
  | reference
  | candidate
  | config
  | referenceLabel
  | candidateLabel
  | format
  | output
  | maxFiles
  | threads
deriving DecidableEq

inductive Opt where
  | switch (s : Switch)
  | valued (v : Valued)
deriving DecidableEq

def long? (name : String) : Option Opt :=
  match name with
  | "reference" => some (.valued .reference)
  | "candidate" => some (.valued .candidate)
  | "config" => some (.valued .config)
  | "reference-label" => some (.valued .referenceLabel)
  | "candidate-label" => some (.valued .candidateLabel)
  | "format" => some (.valued .format)
  | "output" => some (.valued .output)
  | "max-files" => some (.valued .maxFiles)
  | "threads" => some (.valued .threads)
  | "no-progress" => some (.switch .noProgress)
  | "verbose" => some (.switch .verbose)
  | "help" => some (.switch .help)
  | "version" => some (.switch .version)
  | _ => none

def short? (letter : Char) : Option Opt :=
  match letter with
  | 'r' => some (.valued .reference)
  | 'c' => some (.valued .candidate)
  | 'f' => some (.valued .format)
  | 'o' => some (.valued .output)
  | 'v' => some (.switch .verbose)
  | 'h' => some (.switch .help)
  | 'V' => some (.switch .version)
  | _ => none

def Valued.takesMany : Valued → Bool
  | reference => true
  | candidate => true
  | _ => false

def text? (value : Bytes) : Option String :=
  if Text.isUtf8 value then some (Text.decode value) else none

/-- A count is written in decimal digits, with a plus sign or not, and kept in 64 bits. -/
def count? (value : Bytes) : Option Nat :=
  let digits := match (Text.decode value).toList with
    | '+' :: ds => ds
    | ds => ds
  let n := digits.foldl (fun n d => 10 * n + (d.toNat - '0'.toNat)) 0
  if !digits.isEmpty && digits.all Char.isDigit && n < Nat.pow 2 64 then some n else none

def path? (value : Bytes) : Option Bytes := if value = [] then none else some value

def format? (value : Bytes) : Option Format :=
  if value = Text.encode "text" then some .text
  else if value = Text.encode "json" then some .json
  else none

def once {α : Type} (old : Option α) (new : Option α) : Option (Option α) :=
  match old with
  | some _ => none
  | none => new.map some

def give (a : Arguments) (value : Bytes) : Valued → Option Arguments
  | .reference => (path? value).map fun p => { a with reference := a.reference ++ [p] }
  | .candidate => (path? value).map fun p => { a with candidate := a.candidate ++ [p] }
  | .config => (once a.config (path? value)).map fun v => { a with config := v }
  | .referenceLabel => (once a.referenceLabel (text? value)).map fun v =>
    { a with referenceLabel := v }
  | .candidateLabel => (once a.candidateLabel (text? value)).map fun v =>
    { a with candidateLabel := v }
  | .format => (once a.format (format? value)).map fun v => { a with format := v }
  | .output => (once a.output (path? value)).map fun v => { a with output := v }
  | .maxFiles => (once a.maxFiles (count? value)).map fun v => { a with maxFiles := v }
  | .threads => (once a.threads (count? value)).map fun v => { a with threads := v }

/-- Which option the next plain argument is a value of: one that must have a first value yet, or one
that may have more. -/
inductive Waiting where
  | nothing
  | first (v : Valued)
  | more (v : Valued)
deriving DecidableEq

inductive Progress where
  | going (args : Arguments) (waiting : Waiting)
  | asked (r : Request)
  | refused

def ofGiven : Option Arguments → Waiting → Progress
  | some a, w => .going a w
  | none, _ => .refused

def takeValue (a : Arguments) (value : Bytes) : Waiting → Progress
  | .nothing => .refused
  | .first v => ofGiven (a.give value v) (if v.takesMany then .more v else .nothing)
  | .more v => ofGiven (a.give value v) (.more v)

def takeSwitch (a : Arguments) : Switch → Progress
  | .noProgress => if a.noProgress then .refused else .going { a with noProgress := true } .nothing
  | .verbose => .going { a with verbosity := a.verbosity + 1 } .nothing
  | .help => .asked .help
  | .version => .asked .version

def dash : UInt8 := 0x2D

def equals : UInt8 := 0x3D

def takeLetters (a : Arguments) : Bytes → Progress
  | [] => .going a .nothing
  | b :: bs =>
    match short? (Char.ofNat b.toNat) with
    | none => .refused
    | some (.switch s) =>
      match takeSwitch a s with
      | .going a _ => takeLetters a bs
      | p => p
    | some (.valued v) =>
      match bs with
      | [] => .going a (.first v)
      | c :: value =>
        ofGiven (a.give (if c = equals then value else c :: value) v) .nothing

/-- An argument that starts with two dashes, which are left out here. -/
def takeLong (a : Arguments) (bs : Bytes) : Progress :=
  let name := Text.decode (bs.takeWhile (· != equals))
  let value := (bs.dropWhile (· != equals)).tail?
  match long? name, value with
  | some (.switch s), none => takeSwitch a s
  | some (.valued v), none => .going a (.first v)
  | some (.valued v), some value => ofGiven (a.give value v) .nothing
  | _, _ => .refused

def Waiting.isOwed : Waiting → Bool
  | first _ => true
  | _ => false

def take (a : Arguments) (w : Waiting) (arg : Bytes) : Progress :=
  match arg with
  | b :: c :: bs =>
    if b ≠ dash then takeValue a arg w
    else if w.isOwed then .refused
    else if c = dash then takeLong a bs
    else takeLetters a (c :: bs)
  -- a dash alone is a value
  | _ => takeValue a arg w

def finish (a : Arguments) (w : Waiting) : Option Request :=
  if w.isOwed || a.reference.isEmpty || a.candidate.isEmpty then none else some (.compare a)

def readFrom (a : Arguments) (w : Waiting) : List Bytes → Option Request
  | [] => a.finish w
  | arg :: rest =>
    -- two dashes alone end the options, and nothing may follow them
    if arg = [dash, dash] then if rest.isEmpty then a.finish w else none
    else match take a w arg with
    | .going a w => readFrom a w rest
    | .asked r => some r
    | .refused => none

end Arguments

def Request.read? (args : List Bytes) : Option Request := Arguments.readFrom {} .nothing args

end ClassShape
