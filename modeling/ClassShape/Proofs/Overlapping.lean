import ClassShape.Proofs.Lookback

/-! Sweeps over matches that overlap. Where a match that begins inside another always ends with it,
a sweep finds of all matches with one end the first, and nothing else gets lost. -/
namespace ClassShape

section Nested
variable {α β : Type} {pattern : List α → Option (β × Nat)}

/-- A match that begins inside another ends with it. -/
structure Nested (pattern : List α → Option (β × Nat)) : Prop where
  moves : ∀ xs b n, pattern xs = some (b, n) → 0 < n
  ends : ∀ xs b n, pattern xs = some (b, n) → ∀ i, 0 < i → i < n →
    ∀ c k, pattern (xs.drop i) = some (c, k) → i + k = n

def Unclaimed (pattern : List α → Option (β × Nat)) (skip : Nat) (xs : List α) (i stop : Nat) :
    Prop :=
  ∀ j < i, skip ≤ j → ∀ r ∈ pattern (xs.drop j), j + r.2 ≠ stop

instance (skip : Nat) (xs : List α) (i stop : Nat) : Decidable (Unclaimed pattern skip xs i stop) :=
  inferInstanceAs (Decidable (∀ j < i, skip ≤ j → ∀ r ∈ pattern (xs.drop j), j + r.2 ≠ stop))

/-- The match at a position, if it is the first to end where it ends. -/
def first? (pattern : List α → Option (β × Nat)) (skip : Nat) (xs : List α) (i : Nat) :
    Option (β × Nat) :=
  (pattern (xs.drop i)).filter fun r => skip ≤ i ∧ Unclaimed pattern skip xs i (i + r.2)

theorem first?_eq_some_iff {skip : Nat} {xs : List α} {i : Nat} {r : β × Nat} :
    first? pattern skip xs i = some r ↔
      pattern (xs.drop i) = some r ∧ skip ≤ i ∧ Unclaimed pattern skip xs i (i + r.2) := by
  simp [first?, Option.filter_eq_some_iff]

/-- What is claimed before `i` depends on the first element only if a match begins there. -/
theorem unclaimed_cons {skip : Nat} {x : α} {xs : List α} {i stop : Nat} :
    Unclaimed pattern skip (x :: xs) (i + 1) (stop + 1) ↔
      (skip = 0 → ∀ r ∈ pattern (x :: xs), r.2 ≠ stop + 1) ∧
        Unclaimed pattern (skip - 1) xs i stop := by
  constructor
  · intro h
    refine ⟨fun hskip r hr => ?_, fun j hj hskip r hr => ?_⟩
    · have := h 0 (by omega) (by omega) r hr
      omega
    · have := h (j + 1) (by omega) (by omega) r hr
      omega
  · intro h j hj hskip r hr
    cases j with
    | zero =>
      have := h.1 (by omega) r hr
      omega
    | succ j =>
      have := h.2 j (by omega) (by omega) r hr
      omega

theorem first?_cons {skip skip' : Nat} {x : α} {xs : List α} {i : Nat}
    (h : ∀ r ∈ pattern (xs.drop i),
      (skip ≤ i + 1 ∧ Unclaimed pattern skip (x :: xs) (i + 1) (i + r.2 + 1) ↔
        skip' ≤ i ∧ Unclaimed pattern skip' xs i (i + r.2))) :
    first? pattern skip (x :: xs) (i + 1) = first? pattern skip' xs i := by
  unfold first?
  rw [List.drop_succ_cons]
  cases hp : pattern (xs.drop i) with
  | none => rfl
  | some r =>
    have hr := h r (by simp [hp])
    rw [Option.filter_some, Option.filter_some, Nat.add_right_comm i 1 r.2]
    simp only [hr]

/-- Behind a match of `n` elements, a match is the first with its end exactly if it begins outside
and is the first of those that do. -/
theorem Nested.unclaimed_iff (h : Nested pattern) {x : α} {xs : List α} {b : β} {n i : Nat}
    (hp : pattern (x :: xs) = some (b, n)) {r : β × Nat} (hr : pattern (xs.drop i) = some r) :
    Unclaimed pattern 0 (x :: xs) (i + 1) (i + r.2 + 1) ↔
      n - 1 ≤ i ∧ Unclaimed pattern (n - 1) xs i (i + r.2) := by
  have hmoves : 0 < r.2 := h.moves _ r.1 r.2 hr
  have hinside : ∀ j s, j + 1 < n → pattern (xs.drop j) = some s → j + 1 + s.2 = n :=
    fun j s hlt hs => h.ends _ b n hp (j + 1) (by omega) hlt s.1 s.2 hs
  rw [unclaimed_cons]
  constructor
  · intro hclaim
    have hother : n ≠ i + r.2 + 1 := hclaim.1 rfl (b, n) hp
    have hout : n - 1 ≤ i := by
      by_contra hlt
      have := hinside i r (by omega) hr
      omega
    exact ⟨hout, fun j hj _ => hclaim.2 j hj (Nat.zero_le j)⟩
  · intro hclaim
    refine ⟨fun _ s hs => ?_, fun j hj _ s hs => ?_⟩
    · obtain rfl : (b, n) = s := Option.some.inj (hp.symm.trans hs)
      show n ≠ i + r.2 + 1
      omega
    · by_cases hlt : j + 1 < n
      · have := hinside j s hlt hs
        omega
      · exact hclaim.2 j hj (by omega) s hs

theorem Nested.sweepFrom_eq (h : Nested pattern) (skip : Nat) (xs : List α) :
    sweepFrom pattern skip xs =
      (List.range xs.length).filterMap fun i => (first? pattern skip xs i).map Prod.fst := by
  induction xs generalizing skip with
  | nil => simp [sweepFrom]
  | cons x xs ih =>
    rw [List.length_cons, List.range_succ_eq_map, List.filterMap_cons, List.filterMap_map]
    cases skip with
    | succ skip =>
      have hnone : first? pattern (skip + 1) (x :: xs) 0 = none := by
        simp [first?]
      have hrest : ∀ i, first? pattern (skip + 1) (x :: xs) (i + 1) = first? pattern skip xs i := by
        intro i
        apply first?_cons
        intro r _
        rw [unclaimed_cons, Nat.add_sub_cancel]
        simp
      simp only [hnone, Option.map_none, Function.comp_def, Nat.succ_eq_add_one, hrest]
      exact ih skip
    | zero =>
      cases hp : pattern (x :: xs) with
      | none =>
        have hnone : first? pattern 0 (x :: xs) 0 = none := by
          simp [first?, hp]
        have hrest : ∀ i, first? pattern 0 (x :: xs) (i + 1) = first? pattern 0 xs i := by
          intro i
          apply first?_cons
          intro r _
          rw [unclaimed_cons]
          simp [hp]
        simp only [hnone, Option.map_none, Function.comp_def, Nat.succ_eq_add_one, hrest]
        rw [sweepFrom_of_none hp]
        exact ih 0
      | some r =>
        obtain ⟨b, n⟩ := r
        have hfirst : first? pattern 0 (x :: xs) 0 = some (b, n) := by
          simp [first?, hp, Unclaimed]
        have hrest : ∀ i, first? pattern 0 (x :: xs) (i + 1) = first? pattern (n - 1) xs i := by
          intro i
          apply first?_cons
          intro r hr
          rw [h.unclaimed_iff hp hr]
          simp
        simp only [hfirst, Option.map_some, Function.comp_def, Nat.succ_eq_add_one, hrest]
        rw [sweepFrom_of_some hp, ih]

end Nested

section Lookback
variable {α β γ : Type} {view : α → Lexeme} {core : List α → Option (γ × Nat)}
  (build : Modifier → γ → β)

theorem core_of_lookBack {ps : List (Modifier × α)} {b : β} {n : Nat}
    (h : lookBack core build ps = some (b, n)) : ∃ g, core (ps.map Prod.snd) = some (g, n) := by
  cases ps with
  | nil => cases h
  | cons p ps =>
    obtain ⟨⟨g, k⟩, hcore, he⟩ := Option.map_eq_some_iff.1 h
    cases he
    exact ⟨g, hcore⟩

theorem Nested.lookBack (h : Nested core) : Nested (lookBack core build) where
  moves := by
    intro ps b n hm
    obtain ⟨g, hg⟩ := core_of_lookBack build hm
    exact h.moves _ g n hg
  ends := by
    intro ps b n hm i hpos hlt c k hk
    obtain ⟨g, hg⟩ := core_of_lookBack build hm
    obtain ⟨e, he⟩ := core_of_lookBack build hk
    rw [List.map_drop] at he
    exact h.ends _ g n hg i hpos hlt e k he

/-- Looking back changes what is found, but not where. -/
theorem Bare.first?_lookBack (h : Bare view core) (xs : List α) (i : Nat) :
    first? (lookBack core build) 0 (besideModifier view .default xs) i =
      (first? core 0 xs i).map fun (g, n) => (build (modifierBefore (xs.map view) i) g, n) := by
  have hclaims : ∀ stop, Unclaimed (lookBack core build) 0 (besideModifier view .default xs) i stop ↔
      Unclaimed core 0 xs i stop := by
    intro stop
    simp only [Unclaimed, h.lookBack_drop, Option.mem_def, Option.map_eq_some_iff,
      forall_exists_index, and_imp, forall_apply_eq_imp_iff₂]
  unfold first?
  rw [h.lookBack_drop]
  cases hcore : core (xs.drop i) with
  | none => rfl
  | some r =>
    simp only [Option.map_some, Option.filter_some, hclaims]
    split <;> rfl

/-- Of the members that end alike the first is found, with the modifier in front of it. -/
theorem Bare.sweep_first (h : Bare view core) (hnested : Nested core) (xs : List α) :
    sweep (withModifier view core build) xs =
      (List.range xs.length).filterMap fun i =>
        (first? core 0 xs i).map fun r => build (modifierBefore (xs.map view) i) r.1 := by
  have hlength : (besideModifier view .default xs).length = xs.length := by
    rw [← List.length_map Prod.snd, map_snd_besideModifier]
  rw [sweep, h.sweepFrom_eq build 0 .default xs (by simp) (by simp),
    (hnested.lookBack build).sweepFrom_eq, hlength]
  simp [h.first?_lookBack, Function.comp_def]

end Lookback

end ClassShape
