import ClassShape.ClassRecord

/-! Sweeps piece by piece. A match takes its own elements and the sweep goes on behind them; a
quiet piece can be left out. The patterns for headers, attributes and methods read words up to one
mark, so a piece that ends in a mark and never shows that one is quiet. -/
namespace ClassShape
variable {α β : Type} {pattern : List α → Option (β × Nat)} {xs ys : List α}

theorem sweepFrom_length (pattern : List α → Option (β × Nat)) (xs ys : List α) :
    sweepFrom pattern xs.length (xs ++ ys) = sweepFrom pattern 0 ys := by
  induction xs with
  | nil => rfl
  | cons x xs ih => simpa [sweepFrom] using ih

theorem sweepFrom_of_none {x : α} (h : pattern (x :: xs) = none) :
    sweepFrom pattern 0 (x :: xs) = sweepFrom pattern 0 xs := by
  rw [sweepFrom, h]

theorem sweepFrom_of_some {x : α} {b : β} {n : Nat} (h : pattern (x :: xs) = some (b, n)) :
    sweepFrom pattern 0 (x :: xs) = b :: sweepFrom pattern (n - 1) xs := by
  rw [sweepFrom, h]

theorem sweepFrom_match {b : β} (hne : xs ≠ []) (h : pattern (xs ++ ys) = some (b, xs.length)) :
    sweepFrom pattern 0 (xs ++ ys) = b :: sweepFrom pattern 0 ys := by
  cases xs with
  | nil => exact absurd rfl hne
  | cons x xs =>
    rw [List.cons_append] at h ⊢
    simp only [sweepFrom, h, List.length_cons, Nat.add_sub_cancel, sweepFrom_length]

/-- No match begins in `xs`, whatever follows. -/
def Quiet (pattern : List α → Option (β × Nat)) (xs : List α) : Prop :=
  ∀ ys, sweepFrom pattern 0 (xs ++ ys) = sweepFrom pattern 0 ys

namespace Quiet

theorem nil : Quiet pattern [] := fun _ => rfl

theorem append (hx : Quiet pattern xs) (hy : Quiet pattern ys) : Quiet pattern (xs ++ ys) := by
  intro zs
  rw [List.append_assoc, hx, hy]

theorem cons {x : α} (hx : ∀ zs, pattern (x :: (xs ++ zs)) = none) (h : Quiet pattern xs) :
    Quiet pattern (x :: xs) := by
  intro zs
  rw [List.cons_append, sweepFrom, hx]
  exact h zs

theorem of_drop (h : ∀ i zs, i < xs.length → pattern (xs.drop i ++ zs) = none) :
    Quiet pattern xs := by
  induction xs with
  | nil => exact Quiet.nil
  | cons x xs ih =>
    refine Quiet.cons (fun zs => h 0 zs (by simp)) (ih fun i zs hi => ?_)
    exact h (i + 1) zs (by simpa using hi)

end Quiet

def firstMark? : List Lexeme → Option Char
  | [] => none
  | .word _ :: ls => firstMark? ls
  | .mark c :: _ => some c

theorem firstMark?_ne {c d : Char} {ls : List Lexeme} (hls : .mark c ∉ ls) (hd : d ≠ c)
    (ms : List Lexeme) : firstMark? (ls ++ .mark d :: ms) ≠ some c := by
  induction ls with
  | nil => simpa [firstMark?] using hd
  | cons l ls ih =>
    cases l with
    | word w => exact ih fun h => hls (List.mem_cons_of_mem _ h)
    | mark e =>
      have he : e ≠ c := fun he => hls (by simp [he])
      simpa [firstMark?] using he

def Announces (view : α → Lexeme) (pattern : List α → Option (β × Nat)) (c : Char) : Prop :=
  ∀ xs b n, pattern xs = some (b, n) → firstMark? (xs.map view) = some c

theorem Announces.quiet {view : α → Lexeme} {c : Char} (h : Announces view pattern c)
    (ls : List Lexeme) (d : Char) (hxs : xs.map view = ls ++ [.mark d]) (hls : .mark c ∉ ls)
    (hd : d ≠ c) : Quiet pattern xs := by
  induction xs generalizing ls with
  | nil => exact Quiet.nil
  | cons x xs ih =>
    refine Quiet.cons (fun zs => ?_) ?_
    · cases hp : pattern (x :: (xs ++ zs)) with
      | none => rfl
      | some r =>
        have hfirst := h _ r.1 r.2 hp
        rw [← List.cons_append, List.map_append, hxs, List.append_assoc] at hfirst
        exact absurd hfirst (firstMark?_ne hls hd _)
    · cases ls with
      | nil =>
        have hnil : xs = [] := by simpa using congrArg List.tail hxs
        exact hnil ▸ Quiet.nil
      | cons l ls =>
        exact ih ls (List.cons.inj hxs).2 fun hc => hls (List.mem_cons_of_mem l hc)

theorem Header.match?_announces : Announces Token.lexeme Header.match? '{' := by
  intro ts h n hm
  unfold Header.match? at hm
  split at hm
  · split at hm
    · split at hm
      · rfl
      · rfl
      · simp at hm
    · simp at hm
  · simp at hm

theorem Attribute.unmodified?_first {ls : List Lexeme} {r : String × String}
    (h : unmodified? ls = some r) : firstMark? ls = some ';' := by
  unfold unmodified? at h
  split at h
  · rfl
  · simp at h

theorem Attribute.match?_announces : Announces id match? ';' := by
  intro ls a n hm
  rw [List.map_id]
  cases ls with
  | nil => simp [match?] at hm
  | cons first rest =>
    cases hf : first.modifier? with
    | none =>
      simp only [match?, hf] at hm
      obtain ⟨r, hr, _⟩ := Option.map_eq_some_iff.1 hm
      exact unmodified?_first hr
    | some m =>
      simp only [match?, hf] at hm
      obtain ⟨r, hr, _⟩ := Option.map_eq_some_iff.1 hm
      cases first with
      | word w => simpa [firstMark?] using unmodified?_first hr
      | mark c => simp [Lexeme.modifier?] at hf

theorem Method.unmodified?_first {body : List Char} {m : Modifier} {ts : List Token}
    {r : Occurrence × Nat} (h : unmodified? body m ts = some r) :
    firstMark? (ts.map Token.lexeme) = some '(' := by
  unfold unmodified? at h
  split at h
  · rfl
  · simp at h

theorem Method.match?_announces (body : List Char) :
    Announces Token.lexeme (match? body) '(' := by
  intro ts o n hm
  cases ts with
  | nil => simp [match?] at hm
  | cons first rest =>
    obtain ⟨lexeme, start⟩ := first
    cases hf : lexeme.modifier? with
    | none =>
      simp only [match?, hf] at hm
      exact unmodified?_first hm
    | some m =>
      simp only [match?, hf] at hm
      obtain ⟨r, hr, _⟩ := Option.map_eq_some_iff.1 hm
      cases lexeme with
      | word w => simpa [firstMark?] using unmodified?_first hr
      | mark c => simp [Lexeme.modifier?] at hf

end ClassShape
