import ClassShape.ClassRecord
import ClassShape.Proofs.Lexing
import Mathlib.Tactic.MkIffOfInductiveProp

/-! Canonical source text: one way to write class records down, and the records it can write. -/
namespace ClassShape

inductive Member where
  | ofAttribute (a : Attribute)
  | ofMethod (m : Method)
deriving DecidableEq

namespace Member

def attribute? : Member → Option Attribute
  | ofAttribute a => some a
  | ofMethod _ => none

def method? : Member → Option Method
  | ofAttribute _ => none
  | ofMethod m => some m

end Member

/-- A record with its members in an order that keeps the attributes and the methods in theirs. -/
structure Listing where
  record : ClassRecord
  members : List Member
  attributes_eq : members.filterMap Member.attribute? = record.attributes
  methods_eq : members.filterMap Member.method? = record.methods

def Modifier.source : Modifier → String
  | .default => ""
  | m => m.name ++ " "

def Attribute.source (a : Attribute) : String :=
  a.modifier.source ++ a.type ++ " " ++ a.name ++ "; "

def Parameter.source (p : Parameter) : String := p.type ++ " " ++ p.name

def Parameter.listSource (ps : List Parameter) : String := ", ".intercalate (ps.map source)

def Method.source (m : Method) : String :=
  m.modifier.source ++ m.returnType ++ " " ++ m.name ++ "(" ++
    Parameter.listSource m.parameters ++ ") \x7b \x7d "

def Member.source : Member → String
  | ofAttribute a => a.source
  | ofMethod m => m.source

def extendsSource : Option String → String
  | none => " "
  | some parent => " extends " ++ parent ++ " "

def Listing.source (l : Listing) : String :=
  "class " ++ l.record.name ++ extendsSource l.record.parent ++ "\x7b " ++
    String.join (l.members.map Member.source) ++ "\x7d "

def unitSource (ls : List Listing) : String := String.join (ls.map Listing.source)

@[mk_iff]
structure IsName (s : String) : Prop where
  nonempty : s ≠ ""
  chars : ∀ c ∈ s.toList, isIdentifierChar c = true

@[mk_iff]
structure IsWordType (s : String) : Prop where
  nonempty : s ≠ ""
  chars : ∀ c ∈ s.toList, isWordChar c = true
  not_modifier : s ∉ ["public", "private", "protected"]
  not_keyword : s ∉ statementKeywords

@[mk_iff]
structure IsTypeWord (s : String) : Prop where
  nonempty : s ≠ ""
  chars : ∀ c ∈ s.toList, Text.isBlank c = false ∧ c ∉ ['(', ')', '{', '}', ';', '/']

/-- Words with single blanks between them, the first of them not `final`, and as many brackets
opened as closed. -/
structure IsParameterType (s : String) : Prop where
  words : ∃ ws : List String, ws ≠ [] ∧ s = " ".intercalate ws ∧ ws.head? ≠ some "final" ∧
    ∀ w ∈ ws, IsTypeWord w
  balanced : s.toList.count '<' = s.toList.count '>'

def CommasEnclosed (s : String) : Prop :=
  ∀ before after, s.toList = before ++ ',' :: after → before.count '>' < before.count '<'

@[mk_iff]
structure Attribute.Canonical (a : Attribute) : Prop where
  type : IsWordType a.type
  name : IsName a.name

@[mk_iff]
structure Parameter.Canonical (p : Parameter) : Prop where
  type : IsParameterType p.type
  name : IsName p.name

@[mk_iff]
structure Method.Canonical (m : Method) : Prop where
  returnType : IsWordType m.returnType
  name : IsName m.name
  parameters : ∀ p ∈ m.parameters, p.Canonical

@[mk_iff]
structure ClassRecord.Canonical (r : ClassRecord) : Prop where
  name : IsName r.name
  parent : ∀ p ∈ r.parent, IsName p
  attributes : ∀ a ∈ r.attributes, a.Canonical
  methods : ∀ m ∈ r.methods, m.Canonical

-- Decided over the characters of the text: there are too many characters to go through them all.
instance (s : String) : Decidable (IsName s) :=
  decidable_of_iff (s ≠ "" ∧ s.toList.all isIdentifierChar = true)
    (by rw [isName_iff, List.all_eq_true])

instance (s : String) : Decidable (IsWordType s) :=
  decidable_of_iff (s ≠ "" ∧ s.toList.all isWordChar = true ∧
      s ∉ ["public", "private", "protected"] ∧ s ∉ statementKeywords)
    (by rw [isWordType_iff, List.all_eq_true])

instance (s : String) : Decidable (IsTypeWord s) :=
  decidable_of_iff (s ≠ "" ∧ s.toList.all (fun c => !Text.isBlank c &&
      c ∉ ['(', ')', '{', '}', ';', '/']) = true)
    (by simp [isTypeWord_iff])

namespace IsName
variable {s : String}

theorem toList_ne_nil (h : IsName s) : s.toList ≠ [] := by
  simpa using h.nonempty

theorem isWordChar (h : IsName s) : ∀ c ∈ s.toList, isWordChar c = true :=
  fun c hc => isWordChar_of_isIdentifierChar (h.chars c hc)

theorem isIdentifier (h : IsName s) : isIdentifier s = true :=
  List.all_eq_true.2 h.chars

/-- A character that no identifier has is not in a name. -/
theorem notMem (h : IsName s) {c : Char} (hc : isIdentifierChar c = false) : c ∉ s.toList := by
  intro hmem
  simp [h.chars c hmem] at hc

end IsName

namespace IsWordType
variable {s : String}

theorem toList_ne_nil (h : IsWordType s) : s.toList ≠ [] := by
  simpa using h.nonempty

theorem ofWord?_eq_none (h : IsWordType s) : Modifier.ofWord? s = none := by
  have hm := h.not_modifier
  simp only [List.mem_cons, List.not_mem_nil, or_false, not_or] at hm
  simp [Modifier.ofWord?, hm]

theorem isMemberType (h : IsWordType s) : isMemberType s = true := by
  simp [ClassShape.isMemberType, h.ofWord?_eq_none, h.not_keyword]

theorem notMem (h : IsWordType s) {c : Char} (hc : isWordChar c = false) : c ∉ s.toList := by
  intro hmem
  simp [h.chars c hmem] at hc

end IsWordType

theorem IsTypeWord.isWord {s : String} (h : IsTypeWord s) :
    s ≠ "" ∧ ∀ c ∈ s.toList, Text.isBlank c = false :=
  ⟨h.nonempty, fun c hc => (h.chars c hc).1⟩

end ClassShape
