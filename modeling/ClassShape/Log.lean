/-! Log records. A run writes them all; a level decides which of them are shown. -/
namespace ClassShape

inductive LogLevel where
  | error | warn | info | debug | trace
deriving DecidableEq

namespace LogLevel

def rank : LogLevel → Nat
  | error => 1
  | warn => 2
  | info => 3
  | debug => 4
  | trace => 5

def label : LogLevel → String
  | error => "ERROR"
  | warn => "WARN"
  | info => "INFO"
  | debug => "DEBUG"
  | trace => "TRACE"

end LogLevel

structure LogRecord where
  level : LogLevel
  message : String
deriving DecidableEq

def LogRecord.line (r : LogRecord) : String := s!"{r.level.label} {r.message}"

structure Logged (α : Type) where
  value : α
  records : List LogRecord

namespace Logged

instance : Monad Logged where
  pure a := ⟨a, []⟩
  bind x f := ⟨(f x.value).value, x.records ++ (f x.value).records⟩

def log (level : LogLevel) (message : String) : Logged Unit := ⟨(), [⟨level, message⟩]⟩

def logAll (records : List LogRecord) : Logged Unit := ⟨(), records⟩

@[simp] theorem value_pure {α : Type} (a : α) : (pure a : Logged α).value = a := rfl

@[simp] theorem value_bind {α β : Type} (x : Logged α) (f : α → Logged β) :
    (x >>= f).value = (f x.value).value := rfl

end Logged

def shownLines (rank : Nat) (records : List LogRecord) : List String :=
  (records.filter fun r => r.level.rank ≤ rank).map LogRecord.line

end ClassShape
