import ClassShape.Proofs.Headers

/-! Modifiers seen from behind. A member is tried together with the modifier in front of it, if
there is one. The sweep finds what it would find by trying the bare member at every position and
taking the modifier from the element before. -/
namespace ClassShape

def Lexeme.modifier (l : Lexeme) : Modifier := l.modifier?.getD .default

theorem Lexeme.modifier_of_none {l : Lexeme} (h : l.modifier? = none) : l.modifier = .default := by
  simp [modifier, h]

theorem Lexeme.modifier_of_some {l : Lexeme} {m : Modifier} (h : l.modifier? = some m) :
    l.modifier = m := by
  simp [modifier, h]

variable {α β γ : Type} (view : α → Lexeme) (core : List α → Option (γ × Nat))
  (build : Modifier → γ → β)

def withModifier : List α → Option (β × Nat)
  | [] => none
  | x :: xs =>
    match (view x).modifier? with
    | some m => (core xs).map fun (g, n) => (build m g, n + 1)
    | none => (core (x :: xs)).map fun (g, n) => (build .default g, n)

/-- Every element beside the modifier that is given to it, the first with `m`. -/
def besideModifier (m : Modifier) : List α → List (Modifier × α)
  | [] => []
  | x :: xs => (m, x) :: besideModifier (view x).modifier xs

def lookBack (ps : List (Modifier × α)) : Option (β × Nat) :=
  match ps with
  | [] => none
  | (m, _) :: _ => (core (ps.map Prod.snd)).map fun (g, n) => (build m g, n)

/-- A bare member neither starts nor ends with a modifier. -/
structure Bare : Prop where
  nonempty : core [] = none
  first : ∀ x xs r, core (x :: xs) = some r → (view x).modifier? = none
  last : ∀ xs g n, core xs = some (g, n) →
    ∃ k, n = k + 1 ∧ ∀ x, xs[k]? = some x → (view x).modifier? = none

variable {view core}

@[simp] theorem map_snd_besideModifier (m : Modifier) (xs : List α) :
    (besideModifier view m xs).map Prod.snd = xs := by
  induction xs generalizing m with
  | nil => rfl
  | cons x xs ih => simp [besideModifier, ih]

theorem Bare.lookBack_eq (h : Bare view core) (m : Modifier) (xs : List α) :
    lookBack core build (besideModifier view m xs) =
      (core xs).map fun (g, n) => (build m g, n) := by
  cases xs with
  | nil => simp [besideModifier, lookBack, h.nonempty]
  | cons x xs => simp [besideModifier, lookBack]

theorem sweepFrom_lookBack_none {m : Modifier} {x : α} {xs : List α} (h : core (x :: xs) = none) :
    sweepFrom (lookBack core build) 0 (besideModifier view m (x :: xs)) =
      sweepFrom (lookBack core build) 0 (besideModifier view (view x).modifier xs) :=
  sweepFrom_of_none (by simp [lookBack, h])

theorem sweepFrom_lookBack_some {m : Modifier} {x : α} {xs : List α} {g : γ} {k : Nat}
    (h : core (x :: xs) = some (g, k + 1)) :
    sweepFrom (lookBack core build) 0 (besideModifier view m (x :: xs)) =
      build m g ::
        sweepFrom (lookBack core build) k (besideModifier view (view x).modifier xs) := by
  have hlook : lookBack core build (besideModifier view m (x :: xs)) = some (build m g, k + 1) := by
    simp [besideModifier, lookBack, h]
  exact sweepFrom_of_some hlook

/-- The modifier in front of a member is still there when the sweep comes to it: what the sweep
has passed over ends with none. -/
theorem Bare.sweepFrom_eq (h : Bare view core) (skip : Nat) (m : Modifier) (xs : List α)
    (hstart : skip = 0 → m = .default ∨ core xs = none)
    (hskip : ∀ k, skip = k + 1 → ∀ x, xs[k]? = some x → (view x).modifier? = none) :
    sweepFrom (withModifier view core build) skip xs =
      sweepFrom (lookBack core build) skip (besideModifier view m xs) := by
  induction xs generalizing skip m with
  | nil => simp [sweepFrom, besideModifier]
  | cons x xs ih =>
    cases skip with
    | succ skip =>
      apply ih
      · intro hzero
        have hx : (view x).modifier? = none := hskip skip rfl x (by simp [hzero])
        exact Or.inl (Lexeme.modifier_of_none hx)
      · intro k hk y hy
        exact hskip skip rfl y (by simpa [hk] using hy)
    | zero =>
      cases hx : (view x).modifier? with
      | some m' =>
        -- The member, if there is one, starts behind `x`; both sweeps meet there.
        have hnone : core (x :: xs) = none := by
          cases hc : core (x :: xs) with
          | none => rfl
          | some r => simp [h.first x xs r hc] at hx
        rw [sweepFrom_lookBack_none build hnone, Lexeme.modifier_of_some hx]
        cases hc : core xs with
        | none =>
          rw [sweepFrom_of_none (by simp [withModifier, hx, hc])]
          exact ih 0 m' (fun _ => Or.inr hc) (by simp)
        | some r =>
          obtain ⟨g, n⟩ := r
          obtain ⟨k, rfl, hlast⟩ := h.last xs g n hc
          have hrest := ih (k + 1) m' (by simp) fun j hj => by
            obtain rfl : k = j := by omega
            exact hlast
          have hfound : withModifier view core build (x :: xs) = some (build m' g, k + 1 + 1) := by
            simp [withModifier, hx, hc]
          rw [sweepFrom_of_some hfound, Nat.add_sub_cancel, hrest]
          cases xs with
          | nil => simp [h.nonempty] at hc
          | cons y ys => exact (sweepFrom_lookBack_some build hc).symm
      | none =>
        cases hc : core (x :: xs) with
        | none =>
          rw [sweepFrom_of_none (by simp [withModifier, hx, hc]), sweepFrom_lookBack_none build hc,
            Lexeme.modifier_of_none hx]
          exact ih 0 .default (by simp) (by simp)
        | some r =>
          obtain ⟨g, n⟩ := r
          obtain ⟨k, rfl, hlast⟩ := h.last (x :: xs) g n hc
          obtain rfl : m = .default := by simpa [hc] using hstart rfl
          have hfound : withModifier view core build (x :: xs) =
              some (build .default g, k + 1) := by
            simp [withModifier, hx, hc]
          rw [sweepFrom_of_some hfound, sweepFrom_lookBack_some build hc,
            Lexeme.modifier_of_none hx, Nat.add_sub_cancel]
          refine congrArg _ (ih k .default (by simp) fun j hj y hy => ?_)
          exact hlast y (by simpa [hj] using hy)

theorem Apart.lookBack (h : Apart core) : Apart (lookBack core build) := by
  intro ps b n hm i hpos hlt
  cases ps with
  | nil => simp [ClassShape.lookBack] at hm
  | cons p ps =>
    obtain ⟨⟨g, k⟩, hc, he⟩ := Option.map_eq_some_iff.1 hm
    obtain ⟨-, rfl⟩ := Prod.mk.inj he
    have hnone := h _ g k hc i hpos hlt
    rw [← List.map_drop] at hnone
    cases hd : (p :: ps).drop i with
    | nil => rfl
    | cons q qs =>
      rw [hd] at hnone
      simpa [ClassShape.lookBack] using hnone

def modifierBefore (ls : List Lexeme) : Nat → Modifier
  | 0 => .default
  | i + 1 => (ls[i]?.map Lexeme.modifier).getD .default

theorem drop_besideModifier (m : Modifier) (xs : List α) (i : Nat) :
    (besideModifier view m xs).drop (i + 1) =
      besideModifier view (modifierBefore (xs.map view) (i + 1)) (xs.drop (i + 1)) := by
  induction i generalizing m xs with
  | zero =>
    cases xs with
    | nil => rfl
    | cons x xs => simp [besideModifier, modifierBefore]
  | succ i ih =>
    cases xs with
    | nil => rfl
    | cons x xs => simpa [besideModifier, modifierBefore] using ih (view x).modifier xs

theorem Bare.lookBack_drop (h : Bare view core) (xs : List α) (i : Nat) :
    lookBack core build ((besideModifier view .default xs).drop i) =
      (core (xs.drop i)).map fun (g, n) => (build (modifierBefore (xs.map view) i) g, n) := by
  cases i with
  | zero => exact h.lookBack_eq build .default xs
  | succ i => rw [drop_besideModifier, h.lookBack_eq]

/-- Members that stand apart are found at every position that has one, each with the modifier in
front of it. -/
theorem Bare.sweep_eq (h : Bare view core) (hapart : Apart core) (xs : List α) :
    sweep (withModifier view core build) xs =
      (List.range xs.length).filterMap fun i =>
        (core (xs.drop i)).map fun r => build (modifierBefore (xs.map view) i) r.1 := by
  have hlength : (besideModifier view .default xs).length = xs.length := by
    rw [← List.length_map Prod.snd, map_snd_besideModifier]
  rw [sweep, h.sweepFrom_eq build 0 .default xs (by simp) (by simp),
    (hapart.lookBack build).sweepFrom_eq 0 _ (by simp), hlength]
  simp [h.lookBack_drop, Function.comp_def]

end ClassShape
