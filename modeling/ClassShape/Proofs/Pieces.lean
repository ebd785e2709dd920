import ClassShape.Proofs.Checked.Access
import ClassShape.Proofs.Lexing

/-! Pieces of a text. A piece is marked out by its kind, its text and its offsets. In two texts put
together a piece belongs to one of them, unless a word runs on from the first into the second. -/
namespace ClassShape

inductive Lexeme.Kind where
  | word
  | mark (char : Char)
deriving DecidableEq

def Lexeme.kind : Lexeme → Kind
  | word _ => .word
  | mark c => .mark c

/-- A piece marked out in a text: its kind, its text and the offsets where it starts and where it
stops. Nothing ties these to each other. -/
structure Piece where
  kind : Lexeme.Kind
  text : List Char
  start : Nat
  stop : Nat
deriving DecidableEq

def Token.piece (t : Token) : Piece := ⟨t.lexeme.kind, t.text.toList, t.start, t.stop⟩

namespace Piece

def Covers (p : Piece) (n : Nat) : Prop := p.start ≤ n ∧ n < p.stop

def IsSlice (pos : Nat) (cs : List Char) (p : Piece) : Prop :=
  ∃ start stop, p.start = pos + start ∧ p.stop = pos + stop ∧
    Checked.slice start stop cs = .ok p.text

structure IsRun (pos : Nat) (cs : List Char) (p : Piece) : Prop where
  inside : ∀ c ∈ p.text, isWordChar c = true
  before : ∀ c n, Text.StandsAt [c] pos n cs → n + c.utf8Size = p.start → isWordChar c = false
  behind : ∀ c, Text.StandsAt [c] pos p.stop cs → isWordChar c = false

/-- A word is a maximal run, and a mark a single character that could not be in a word. -/
def Fits (pos : Nat) (cs : List Char) (p : Piece) : Prop :=
  match p.kind with
  | .word => p.IsRun pos cs
  | .mark c => p.text = [c] ∧ isWordChar c = false

end Piece

namespace Seam
variable {w cs ds : List Char}

/-- A word that ends the first text does not go on in the second. -/
theorem head_not_word (h : Seam ds cs) (hne : w ≠ []) (hw : ∀ c ∈ w, isWordChar c = true)
    (hend : w <:+ ds) : ∀ c, cs.head? = some c → isWordChar c = false := by
  obtain ⟨before, rfl⟩ := hend
  intro c hc
  refine h (w.getLast hne) c ?_ hc (hw _ (List.getLast_mem hne))
  rw [List.getLast?_append, List.getLast?_eq_some_getLast hne, Option.some_or]

/-- A word that begins the second text did not begin in the first. -/
theorem last_not_word (h : Seam ds cs) (hne : w ≠ []) (hw : ∀ c ∈ w, isWordChar c = true)
    (hbegin : w <+: cs) : ∀ c, ds.getLast? = some c → isWordChar c = false := by
  obtain ⟨after, rfl⟩ := hbegin
  intro c hc
  cases hword : isWordChar c with
  | false => rfl
  | true =>
    have hhead : (w ++ after).head? = some (w.head hne) := by
      rw [List.head?_append, List.head?_eq_some_head hne, Option.some_or]
    have hstop := h c _ hc hhead hword
    rw [hw _ (List.head_mem hne)] at hstop
    cases hstop

end Seam

namespace Piece
variable {p : Piece} {pos : Nat} {cs ds : List Char}

theorem isSlice_iff : p.IsSlice pos cs ↔
    Text.StandsAt p.text pos p.start cs ∧ p.start + Text.byteLength p.text = p.stop := by
  constructor
  · intro h
    obtain ⟨start, stop, hstart, hstop, hslice⟩ := h
    obtain ⟨before, after, hcs, rfl, rfl⟩ := Checked.slice_eq_ok_iff.1 hslice
    exact ⟨⟨before, after, hcs, hstart.symm⟩, by rw [hstart, hstop, Nat.add_assoc]⟩
  · intro h
    obtain ⟨⟨before, after, hcs, hstart⟩, hstop⟩ := h
    refine ⟨_, _, hstart.symm, ?_, Checked.slice_eq_ok_iff.2 ⟨before, after, hcs, rfl, rfl⟩⟩
    rw [← hstop, ← hstart, Nat.add_assoc]

namespace IsSlice

theorem standsAt (h : p.IsSlice pos cs) : Text.StandsAt p.text pos p.start cs := (isSlice_iff.1 h).1

theorem stop_eq (h : p.IsSlice pos cs) : p.start + Text.byteLength p.text = p.stop :=
  (isSlice_iff.1 h).2

theorem le_start (h : p.IsSlice pos cs) : pos ≤ p.start := h.standsAt.le

theorem stop_le (h : p.IsSlice pos cs) : p.stop ≤ pos + Text.byteLength cs :=
  h.stop_eq ▸ h.standsAt.stop_le

theorem text_ne_nil (h : p.IsSlice pos cs) (hlt : p.start < p.stop) : p.text ≠ [] := by
  intro hnil
  have hstop := h.stop_eq
  rw [hnil, Text.byteLength_nil] at hstop
  omega

theorem append_right (h : p.IsSlice pos ds) (cs : List Char) : p.IsSlice pos (ds ++ cs) :=
  isSlice_iff.2 ⟨h.standsAt.append_right cs, h.stop_eq⟩

theorem append_left (h : p.IsSlice (pos + Text.byteLength ds) cs) : p.IsSlice pos (ds ++ cs) :=
  isSlice_iff.2 ⟨h.standsAt.append, h.stop_eq⟩

end IsSlice

/-- A piece that fits in one text fits in another, if no word character is put next to it. -/
theorem Fits.of_neighbours {part : Nat} {inside : List Char} (h : p.Fits part inside)
    (hnext : (∀ c ∈ p.text, isWordChar c = true) → ∀ c n, Text.StandsAt [c] pos n cs →
      n + c.utf8Size = p.start ∨ n = p.stop →
      Text.StandsAt [c] part n inside ∨ isWordChar c = false) : p.Fits pos cs := by
  unfold Fits at h ⊢
  split at h
  · refine ⟨h.inside, fun c n hc hn => ?_, fun c hc => ?_⟩
    · cases hnext h.inside c n hc (Or.inl hn) with
      | inl hc => exact h.before c n hc hn
      | inr hstop => exact hstop
    · cases hnext h.inside c _ hc (Or.inr rfl) with
      | inl hc => exact h.behind c hc
      | inr hstop => exact hstop
  · exact h

/-- No piece lies across a seam. -/
theorem cases_seam (hslice : p.IsSlice pos (ds ++ cs)) (hfits : p.Fits pos (ds ++ cs))
    (hseam : Seam ds cs) : p.IsSlice pos ds ∨ p.IsSlice (pos + Text.byteLength ds) cs := by
  have hstands := hslice.standsAt
  simp only [isSlice_iff, hslice.stop_eq, and_true]
  unfold Fits at hfits
  split at hfits
  · apply hstands.cases_append.imp_right
    intro hside
    refine hside.resolve_right fun ⟨us, vs, hsplit, hus, hvs, hds, after, hcs⟩ => ?_
    have hword : ∀ c ∈ us ++ vs, isWordChar c = true := hsplit ▸ hfits.inside
    have hhead : cs.head? = some (vs.head hvs) := by
      rw [← hcs, List.head?_append, List.head?_eq_some_head hvs, Option.some_or]
    have hstop := hseam.head_not_word hus (fun c hc => hword c (List.mem_append_left vs hc)) hds _
      hhead
    rw [hword _ (List.mem_append_right us (List.head_mem hvs))] at hstop
    cases hstop
  · rw [hfits.1] at hstands ⊢
    exact hstands.char_append

end Piece
end ClassShape
