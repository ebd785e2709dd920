import ClassShape.ClassRecord
import ClassShape.Comment

/-! Source units: the classes of a unit, pooled by name, and the advisories on what is amiss in it.
Advisories never stop a run. -/
namespace ClassShape

inductive Advisory where
  | unbalanced (className : String)
  | noClasses
  | duplicate (className : String)
  | unexpected (reason : String)
deriving DecidableEq

def Advisory.message : Advisory → String
  | unbalanced name => s!"unbalanced braces in class '{name}': body never closes"
  | noClasses => "no class declarations found"
  | duplicate name => s!"duplicate class '{name}': later declaration replaces the earlier one"
  | unexpected reason => s!"unexpected parser failure: {reason}"

structure Outcome where
  classes : List ClassRecord
  advisories : List Advisory
deriving DecidableEq

namespace Outcome

def empty : Outcome := ⟨[], []⟩

def add (o : Outcome) : Declaration → Outcome
  | .unclosed name => { o with advisories := o.advisories ++ [.unbalanced name] }
  | .complete body =>
    let r := body.classRecord
    let found := if Pool.contains o.classes r.name then [Advisory.duplicate r.name] else []
    ⟨Pool.insert r o.classes, o.advisories ++ found⟩

def ofDeclarations : List Declaration → Outcome
  | [] => ⟨[], [.noClasses]⟩
  | ds => ds.foldl add empty

end Outcome

def parse (source : String) : Outcome :=
  Outcome.ofDeclarations (declarations (Comment.strip source))

end ClassShape
