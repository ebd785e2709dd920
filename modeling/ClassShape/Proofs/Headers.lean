import ClassShape.Proofs.Sweeping
import Mathlib.Data.List.Forall2

/-! Where headers stand. A sweep goes past the tokens of each header that it finds; as no header
begins among the tokens of another, it still finds all of them. -/
namespace ClassShape

section Apart
variable {α β : Type} {pattern : List α → Option (β × Nat)}

/-- No match begins inside another. -/
def Apart (pattern : List α → Option (β × Nat)) : Prop :=
  ∀ xs b n, pattern xs = some (b, n) → ∀ i, 0 < i → i < n → pattern (xs.drop i) = none

/-- A sweep for matches that stand apart finds the match at every position that has one. -/
theorem Apart.sweepFrom_eq (h : Apart pattern) (skip : Nat) (xs : List α)
    (hskip : ∀ i < skip, pattern (xs.drop i) = none) :
    sweepFrom pattern skip xs =
      (List.range xs.length).filterMap fun i => (pattern (xs.drop i)).map Prod.fst := by
  induction xs generalizing skip with
  | nil => simp [sweepFrom]
  | cons x xs ih =>
    rw [List.length_cons, List.range_succ_eq_map, List.filterMap_cons, List.filterMap_map]
    cases skip with
    | zero =>
      cases hp : pattern (x :: xs) with
      | none => simpa [sweepFrom, hp, Function.comp_def] using ih 0 (by simp)
      | some r =>
        obtain ⟨b, n⟩ := r
        have hinside : ∀ i < n - 1, pattern (xs.drop i) = none := fun i hi =>
          h (x :: xs) b n hp (i + 1) (by omega) (by omega)
        simpa [sweepFrom, hp, Function.comp_def] using ih (n - 1) hinside
    | succ skip =>
      have hfirst : pattern (x :: xs) = none := hskip 0 (by omega)
      have hrest : ∀ i < skip, pattern (xs.drop i) = none := fun i hi => hskip (i + 1) (by omega)
      simpa [sweepFrom, hfirst, Function.comp_def] using ih skip hrest

theorem forall₂_filterMap {γ δ : Type} (f : γ → Option δ) (xs : List γ) :
    List.Forall₂ (fun x y => f x = some y) (xs.filter fun x => (f x).isSome) (xs.filterMap f) := by
  induction xs with
  | nil => exact .nil
  | cons x xs ih =>
    cases hx : f x with
    | none => simpa [hx] using ih
    | some y => simpa [hx] using ih

/-- What is found at the positions below `n`, and where. -/
theorem exists_positions_filterMap {δ : Type} {f : Nat → Option δ} {n : Nat}
    (hlt : ∀ i y, f i = some y → i < n) :
    ∃ positions : List Nat, positions.Pairwise (· < ·) ∧
      (∀ i, i ∈ positions ↔ ∃ y, f i = some y) ∧
      List.Forall₂ (fun i y => f i = some y) positions ((List.range n).filterMap f) := by
  refine ⟨(List.range n).filter fun i => (f i).isSome, List.pairwise_lt_range.filter _, ?_,
    forall₂_filterMap f (List.range n)⟩
  intro i
  simp only [List.mem_filter, List.mem_range, Option.isSome_iff_exists]
  exact ⟨fun h => h.2, fun h => ⟨h.elim (hlt i), h⟩⟩

end Apart

namespace Header

/-- A header stands at the start of a list of tokens: `class Name {` or
`class Name extends Parent {`, the names made of identifier characters. -/
inductive At : List Token → Header → Prop where
  | plain {name : String} {i j brace : Nat} {rest : List Token} (hname : isIdentifier name = true) :
    At (⟨.word "class", i⟩ :: ⟨.word name, j⟩ :: ⟨.mark '{', brace⟩ :: rest) ⟨name, none, brace⟩
  | extending {name parent : String} {i j k l brace : Nat} {rest : List Token}
    (hname : isIdentifier name = true) (hparent : isIdentifier parent = true) :
    At (⟨.word "class", i⟩ :: ⟨.word name, j⟩ :: ⟨.word "extends", k⟩ :: ⟨.word parent, l⟩ ::
      ⟨.mark '{', brace⟩ :: rest) ⟨name, some parent, brace⟩

def size (h : Header) : Nat := if h.parent.isSome then 5 else 3

theorem match?_eq_some_iff {ts : List Token} {h : Header} {n : Nat} :
    match? ts = some (h, n) ↔ At ts h ∧ n = h.size := by
  constructor
  · intro hm
    unfold match? at hm
    split at hm
    · split at hm
      · rename_i hclass
        obtain ⟨rfl, hname⟩ := hclass
        split at hm
        · cases hm
          exact ⟨.plain hname, rfl⟩
        · split at hm
          · rename_i hextends
            obtain ⟨rfl, hparent⟩ := hextends
            cases hm
            exact ⟨.extending hname hparent, rfl⟩
          · simp at hm
        · simp at hm
      · simp at hm
    · simp at hm
  · intro hm
    obtain ⟨hat, rfl⟩ := hm
    cases hat with
    | plain hname => simp [match?, hname, size]
    | extending hname hparent => simp [match?, hname, hparent, size]

theorem match?_eq_none_iff {ts : List Token} : match? ts = none ↔ ∀ h, ¬ At ts h := by
  constructor
  · intro hm h hat
    simp [match?_eq_some_iff.2 ⟨hat, rfl⟩] at hm
  · intro hnone
    cases hm : match? ts with
    | none => rfl
    | some r => exact absurd (match?_eq_some_iff.1 hm).1 (hnone r.1)

/-- A header that began at the name or at the parent of another would have to end at the same
brace, and there are too few words between. -/
theorem match?_apart : Apart match? := by
  intro ts h n hm i hpos hlt
  obtain ⟨hat, rfl⟩ := match?_eq_some_iff.1 hm
  cases hat with
  | plain hname =>
    obtain rfl | rfl : i = 1 ∨ i = 2 := by
      simp only [size, Option.isSome_none, Bool.false_eq_true, if_false] at hlt
      omega
    · rfl
    · rfl
  | extending hname hparent =>
    obtain rfl | rfl | rfl | rfl : i = 1 ∨ i = 2 ∨ i = 3 ∨ i = 4 := by
      simp only [size, Option.isSome_some, if_true] at hlt
      omega
    · simp [match?]
    · simp [match?]
    · simp [match?]
    · simp [match?]

def at? (ts : List Token) (i : Nat) : Option Header := (match? (ts.drop i)).map Prod.fst

theorem at?_eq_some_iff {ts : List Token} {i : Nat} {h : Header} :
    at? ts i = some h ↔ At (ts.drop i) h := by
  rw [at?, Option.map_eq_some_iff]
  constructor
  · intro hm
    obtain ⟨r, hm, rfl⟩ := hm
    exact (match?_eq_some_iff.1 hm).1
  · intro hat
    exact ⟨(h, h.size), match?_eq_some_iff.2 ⟨hat, rfl⟩, rfl⟩

theorem lt_length_of_at {ts : List Token} {i : Nat} {h : Header} (hat : At (ts.drop i) h) :
    i < ts.length := by
  by_contra hge
  rw [List.drop_eq_nil_of_le (Nat.le_of_not_lt hge)] at hat
  cases hat

end Header

theorem headers_eq (source : List Char) :
    headers source =
      (List.range (Token.scan source).length).filterMap (Header.at? (Token.scan source)) :=
  Header.match?_apart.sweepFrom_eq 0 (Token.scan source) (by simp)

/-- The positions at which headers stand, and their declarations. -/
theorem exists_positions (source : String) :
    ∃ positions : List Nat, positions.Pairwise (· < ·) ∧
      (∀ i, i ∈ positions ↔ ∃ h, Header.At ((tokenize source).drop i) h) ∧
      List.Forall₂ (fun i d => ∃ h, Header.At ((tokenize source).drop i) h ∧
        d = Header.declaration source.toList h) positions (declarations source) := by
  obtain ⟨positions, hincreasing, hmem, hheaders⟩ :=
    exists_positions_filterMap (f := Header.at? (tokenize source)) fun i h hi =>
      Header.lt_length_of_at (Header.at?_eq_some_iff.1 hi)
  simp only [Header.at?_eq_some_iff] at hmem hheaders
  refine ⟨positions, hincreasing, hmem, ?_⟩
  rw [declarations, headers_eq, List.forall₂_map_right_iff]
  exact hheaders.imp fun i h hi => ⟨h, hi, rfl⟩

def Headerless (body : List Char) : Prop :=
  ∀ i h, ¬ Header.At ((Token.scan body).drop i) h

theorem headers_eq_nil_iff {body : List Char} : headers body = [] ↔ Headerless body := by
  simp only [headers_eq, List.filterMap_eq_nil_iff, List.mem_range, Headerless,
    ← Header.at?_eq_some_iff]
  constructor
  · intro hnone i h hi
    simp [hnone i (Header.lt_length_of_at (Header.at?_eq_some_iff.1 hi))] at hi
  · intro hnone i _
    exact Option.eq_none_iff_forall_ne_some.2 (hnone i)

instance (body : List Char) : Decidable (Headerless body) :=
  decidable_of_iff (headers body = []) headers_eq_nil_iff

end ClassShape
