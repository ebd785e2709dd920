import ClassShape.Proofs.Lexing
import ClassShape.Proofs.Lookback

/-! Where attributes stand. A type, a name and a semicolon in a row are an attribute wherever they
stand in a class body, and its modifier is the one written right before it; what the sweep passes
over on the way to an attribute belongs to none other. -/
namespace ClassShape

theorem isMemberType_iff {word : String} :
    isMemberType word = true ↔ Modifier.ofWord? word = none ∧ word ∉ statementKeywords := by
  simp [isMemberType]

namespace Attribute

theorem unmodified?_eq_some_iff {ls : List Lexeme} {type name : String} :
    unmodified? ls = some (type, name) ↔
      (ls[0]? = some (.word type) ∧ ls[1]? = some (.word name) ∧ ls[2]? = some (.mark ';')) ∧
        isMemberType type = true ∧ isIdentifier name = true := by
  constructor
  · intro h
    unfold unmodified? at h
    split at h
    · split at h
      · rename_i hwords
        cases h
        exact ⟨⟨rfl, rfl, rfl⟩, by simpa using hwords⟩
      · cases h
    · cases h
  · intro h
    obtain ⟨⟨htype, hname, hmark⟩, hwords⟩ := h
    obtain _ | ⟨l₀, _ | ⟨l₁, _ | ⟨l₂, ls⟩⟩⟩ := ls
    · cases htype
    · cases hname
    · cases hmark
    · cases htype
      cases hname
      cases hmark
      simp [unmodified?, hwords]

def bare? (ls : List Lexeme) : Option ((String × String) × Nat) := (unmodified? ls).map (·, 3)

theorem match?_eq_withModifier (ls : List Lexeme) :
    match? ls = withModifier id bare? (fun m words => ⟨m, words.1, words.2⟩) ls := by
  cases ls with
  | nil => rfl
  | cons first rest =>
    cases hf : first.modifier? with
    | none =>
      simp [match?, withModifier, bare?, hf, Function.comp_def]
    | some m => simp [match?, withModifier, bare?, hf, Function.comp_def]

theorem bare?_eq_some {ls : List Lexeme} {words : String × String} {n : Nat}
    (h : bare? ls = some (words, n)) : unmodified? ls = some words ∧ n = 3 := by
  obtain ⟨r, hr, he⟩ := Option.map_eq_some_iff.1 h
  obtain ⟨rfl, rfl⟩ := Prod.mk.inj he
  exact ⟨hr, rfl⟩

theorem bare_bare? : Bare id bare? where
  nonempty := rfl
  first := by
    intro l ls r h
    obtain ⟨hwords, -⟩ := bare?_eq_some h
    obtain ⟨⟨htype, -, -⟩, hmember, -⟩ := unmodified?_eq_some_iff.1 hwords
    cases htype
    exact (isMemberType_iff.1 hmember).1
  last := by
    intro ls words n h
    obtain ⟨hwords, rfl⟩ := bare?_eq_some h
    obtain ⟨⟨-, -, hmark⟩, -, -⟩ := unmodified?_eq_some_iff.1 hwords
    refine ⟨2, rfl, fun l hl => ?_⟩
    cases hmark.symm.trans hl
    rfl

/-- The name and the semicolon of an attribute start no other. -/
theorem bare?_apart : Apart bare? := by
  intro ls words n h i hpos hlt
  obtain ⟨hwords, rfl⟩ := bare?_eq_some h
  obtain ⟨⟨-, hname, hmark⟩, -, -⟩ := unmodified?_eq_some_iff.1 hwords
  cases hd : bare? (ls.drop i) with
  | none => rfl
  | some r =>
    obtain ⟨hother, -⟩ := bare?_eq_some hd
    obtain ⟨⟨hfirst, hsecond, -⟩, -, -⟩ := unmodified?_eq_some_iff.1 hother
    rw [List.getElem?_drop] at hfirst hsecond
    obtain rfl | rfl : i = 1 ∨ i = 2 := by omega
    · simp [hmark] at hsecond
    · simp [hmark] at hfirst

/-- An attribute stands at a position: a type that is neither a modifier nor a keyword, a name and
a semicolon, with the modifier that stands before them. -/
structure At (ls : List Lexeme) (i : Nat) (a : Attribute) : Prop where
  type : ls[i]? = some (.word a.type)
  name : ls[i + 1]? = some (.word a.name)
  semicolon : ls[i + 2]? = some (.mark ';')
  type_notModifier : Modifier.ofWord? a.type = none
  type_notKeyword : a.type ∉ statementKeywords
  name_isIdentifier : isIdentifier a.name = true
  modifier : a.modifier = modifierBefore ls i

def at? (ls : List Lexeme) (i : Nat) : Option Attribute :=
  (bare? (ls.drop i)).map fun r => ⟨modifierBefore ls i, r.1.1, r.1.2⟩

theorem at?_eq_some_iff {ls : List Lexeme} {i : Nat} {a : Attribute} :
    at? ls i = some a ↔ At ls i a := by
  have hread : at? ls i = some a ↔
      unmodified? (ls.drop i) = some (a.type, a.name) ∧ a.modifier = modifierBefore ls i := by
    cases hu : unmodified? (ls.drop i) with
    | none => simp [at?, bare?, hu]
    | some words =>
      have hat : at? ls i = some ⟨modifierBefore ls i, words.1, words.2⟩ := by
        simp [at?, bare?, hu]
      obtain ⟨m, type, name⟩ := a
      rw [hat]
      constructor
      · intro h
        cases h
        exact ⟨rfl, rfl⟩
      · intro h
        obtain ⟨hwords, hbefore⟩ := h
        cases hwords
        rw [← hbefore]
  rw [hread, unmodified?_eq_some_iff, isMemberType_iff]
  simp only [List.getElem?_drop]
  constructor
  · intro h
    obtain ⟨⟨⟨htype, hname, hmark⟩, ⟨hmodifier, hkeyword⟩, hid⟩, hbefore⟩ := h
    exact ⟨htype, hname, hmark, hmodifier, hkeyword, hid, hbefore⟩
  · intro h
    exact ⟨⟨⟨h.type, h.name, h.semicolon⟩, ⟨h.type_notModifier, h.type_notKeyword⟩,
      h.name_isIdentifier⟩, h.modifier⟩

theorem At.lt_length {ls : List Lexeme} {i : Nat} {a : Attribute} (h : At ls i a) :
    i < ls.length :=
  (List.getElem?_eq_some_iff.1 h.type).1

end Attribute

/-- The sweep finds the attribute at every position that has one. -/
theorem attributes_eq_filterMap (body : String) :
    attributes body = (List.range (lexemes body.toList).length).filterMap
      (Attribute.at? (lexemes body.toList)) := by
  have hpattern : Attribute.match? = withModifier id Attribute.bare? _ :=
    funext Attribute.match?_eq_withModifier
  rw [attributes, Attribute.scan, hpattern, ← lexemes,
    Attribute.bare_bare?.sweep_eq _ Attribute.bare?_apart, List.map_id]
  rfl

/-- The attributes of a class body are those at all the positions where one stands, in order, each
once and with the modifier before it. -/
theorem attributes_exact (body : String) :
    let ls := (tokenize body).map Token.lexeme
    ∃ positions : List Nat, positions.Pairwise (· < ·) ∧
      (∀ i, i ∈ positions ↔ ∃ a, Attribute.At ls i a) ∧
      List.Forall₂ (Attribute.At ls) positions (attributes body) := by
  intro ls
  obtain ⟨positions, hincreasing, hmem, hfound⟩ :=
    exists_positions_filterMap (f := Attribute.at? ls) fun i a hi =>
      (Attribute.at?_eq_some_iff.1 hi).lt_length
  simp only [Attribute.at?_eq_some_iff] at hmem hfound
  exact ⟨positions, hincreasing, hmem, attributes_eq_filterMap body ▸ hfound⟩

end ClassShape
