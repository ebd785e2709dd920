import ClassShape.Signature
import Mathlib.Algebra.BigOperators.Group.List.Lemmas
import Mathlib.Data.List.Induction
import Mathlib.Data.List.Nodup

/-! What a tally holds: the distinct items in the order of first additions, each with the number
of its additions, and the position of each among them. Every addition keeps it so; what can be
asked of a tally follows. -/
namespace ClassShape.Tally
variable {α : Type} [DecidableEq α]

theorem eraseDups_concat_of_mem {as : List α} {a : α} (ha : a ∈ as) :
    (as ++ [a]).eraseDups = as.eraseDups := by
  rw [List.eraseDups_append]
  simp [List.removeAll, ha]

theorem eraseDups_concat_of_notMem {as : List α} {a : α} (ha : a ∉ as) :
    (as ++ [a]).eraseDups = as.eraseDups ++ [a] := by
  rw [List.eraseDups_append]
  simp [List.removeAll, ha, List.eraseDups_cons]

/-- The distinct items stand in the order of their first additions. -/
theorem pairwise_eraseDups (as : List α) :
    as.eraseDups.Pairwise fun a b => as.idxOf a < as.idxOf b := by
  induction as using List.reverseRecOn with
  | nil => simp
  | append_singleton as a ih =>
    have hkept : as.eraseDups.Pairwise fun b c => (as ++ [a]).idxOf b < (as ++ [a]).idxOf c := by
      refine ih.imp_of_mem fun {b c} hb hc hlt => ?_
      rwa [List.idxOf_append_of_mem (List.mem_eraseDups.1 hb),
        List.idxOf_append_of_mem (List.mem_eraseDups.1 hc)]
    by_cases ha : a ∈ as
    · rwa [eraseDups_concat_of_mem ha]
    · rw [eraseDups_concat_of_notMem ha]
      refine List.pairwise_append.2 ⟨hkept, List.pairwise_singleton _ _, fun b hb c hc => ?_⟩
      have hb' := List.mem_eraseDups.1 hb
      rw [List.mem_singleton.1 hc, List.idxOf_append_of_mem hb', List.idxOf_append_of_notMem ha]
      exact Nat.lt_add_right _ (List.idxOf_lt_length_of_mem hb')

theorem nodup_eraseDups (as : List α) : as.eraseDups.Nodup :=
  (pairwise_eraseDups as).imp fun hlt he => (he ▸ hlt).false

structure Holds (as : List α) (t : Tally α) : Prop where
  entries : t.entries = as.eraseDups.map fun a => (a, as.count a)
  position : ∀ a i, t.positions.lookup a = some i ↔ as.eraseDups[i]? = some a

namespace Holds
variable {as : List α} {t : Tally α} {a : α}

theorem lookup_of_notMem (h : Holds as t) (ha : a ∉ as) : t.positions.lookup a = none := by
  refine Option.eq_none_iff_forall_ne_some.2 fun i hi => ?_
  exact ha (List.mem_eraseDups.1 (List.mem_of_getElem? ((h.position a i).1 hi)))

theorem exists_lookup (h : Holds as t) (ha : a ∈ as) :
    ∃ i, t.positions.lookup a = some i ∧ as.eraseDups[i]? = some a := by
  obtain ⟨i, hi⟩ := List.mem_iff_getElem?.1 (List.mem_eraseDups.2 ha)
  exact ⟨i, (h.position a i).2 hi, hi⟩

/-- A known item is counted where it stands. -/
theorem add_of_mem (h : Holds as t) (ha : a ∈ as) : Holds (as ++ [a]) (t.add a) := by
  obtain ⟨i, hlookup, hi⟩ := h.exists_lookup ha
  have hadd : t.add a = ⟨t.entries.modify i fun e => (e.1, e.2 + 1), t.positions⟩ := by
    rw [add, hlookup]
  rw [hadd]
  refine ⟨?_, ?_⟩
  · rw [eraseDups_concat_of_mem ha, h.entries]
    refine List.ext_getElem? fun j => ?_
    rw [List.getElem?_modify, List.getElem?_map, List.getElem?_map]
    cases hj : as.eraseDups[j]? with
    | none => rfl
    | some b =>
      -- Distinct items stand apart, so the entry at `i` is the only one of `a`.
      have hij : i = j ↔ a = b := by
        rw [← List.getElem?_inj (List.getElem?_eq_some_iff.1 hi).1 (nodup_eraseDups as), hi, hj,
          Option.some.injEq]
      by_cases hab : a = b
      · simp [hij.2 hab, hab, List.count_append]
      · simp [mt hij.1 hab, hab, List.count_append]
  · rw [eraseDups_concat_of_mem ha]
    exact h.position

/-- A new item stands last. -/
theorem add_of_notMem (h : Holds as t) (ha : a ∉ as) : Holds (as ++ [a]) (t.add a) := by
  have hlength : t.entries.length = as.eraseDups.length := by rw [h.entries, List.length_map]
  have hadd : t.add a = ⟨t.entries ++ [(a, 1)], (a, as.eraseDups.length) :: t.positions⟩ := by
    rw [add, h.lookup_of_notMem ha, hlength]
  rw [hadd]
  refine ⟨?_, fun b i => ?_⟩
  · have hold : ∀ b ∈ as.eraseDups, (b, as.count b) = (b, (as ++ [a]).count b) := by
      intro b hb
      have hab : a ≠ b := fun he => ha (he ▸ List.mem_eraseDups.1 hb)
      simp [List.count_append, hab]
    rw [eraseDups_concat_of_notMem ha, h.entries, List.map_append, List.map_congr_left hold]
    simp [List.count_eq_zero_of_not_mem ha]
  · have hlast : (as.eraseDups ++ [a])[i]? = some b ↔
        as.eraseDups[i]? = some b ∨ i = as.eraseDups.length ∧ a = b := by
      grind
    rw [eraseDups_concat_of_notMem ha, hlast, ← h.position, List.lookup_cons]
    by_cases hb : b = a
    · simp [hb, h.lookup_of_notMem ha, eq_comm]
    · simp [beq_false_of_ne hb, Ne.symm hb]

theorem add (h : Holds as t) (a : α) : Holds (as ++ [a]) (t.add a) := by
  by_cases ha : a ∈ as
  · exact h.add_of_mem ha
  · exact h.add_of_notMem ha

theorem mem_entries (h : Holds as t) {n : Nat} :
    (a, n) ∈ t.entries ↔ a ∈ as ∧ as.count a = n := by
  rw [h.entries]
  simp [List.mem_eraseDups]

theorem get?_eq (h : Holds as t) (a : α) :
    t.get? a = if a ∈ as then some (as.count a) else none := by
  by_cases ha : a ∈ as
  · obtain ⟨i, hlookup, hi⟩ := h.exists_lookup ha
    simp [get?, hlookup, h.entries, hi, ha]
  · simp [get?, h.lookup_of_notMem ha, ha]

end Holds

theorem ofList_concat (as : List α) (a : α) : ofList (as ++ [a]) = (ofList as).add a := by
  simp [ofList, addAll]

/-- Addition after addition, a tally holds what was added. -/
theorem holds_ofList (as : List α) : Holds as (ofList as) := by
  induction as using List.reverseRecOn with
  | nil => exact ⟨rfl, by simp [ofList, addAll, empty]⟩
  | append_singleton as a ih =>
    rw [ofList_concat]
    exact ih.add a

/-- The closed form of a tally. -/
theorem entries_ofList (as : List α) :
    (ofList as).entries = as.eraseDups.map fun a => (a, as.count a) :=
  (holds_ofList as).entries

theorem mem_entries_ofList {as : List α} {a : α} {n : Nat} :
    (a, n) ∈ (ofList as).entries ↔ a ∈ as ∧ as.count a = n :=
  (holds_ofList as).mem_entries

theorem get?_ofList (as : List α) (a : α) :
    (ofList as).get? a = if a ∈ as then some (as.count a) else none :=
  (holds_ofList as).get?_eq a

/-- The same by the number of additions, which says by itself whether there are any. -/
theorem get?_ofList_eq_count (as : List α) (a : α) :
    (ofList as).get? a = if 0 < as.count a then some (as.count a) else none := by
  simp only [get?_ofList, List.count_pos_iff]

theorem total_count_eraseDups (as : List α) :
    (as.eraseDups.map as.count).foldr (· + ·) 0 = as.length := by
  have hperm : as.eraseDups.Perm as.dedup := by
    refine (List.perm_ext_iff_of_nodup (nodup_eraseDups as) as.nodup_dedup).2 fun a => ?_
    rw [List.mem_eraseDups, List.mem_dedup]
  exact (hperm.map as.count).sum_eq.trans as.sum_map_count_dedup_eq_length

structure Represents (as : List α) (t : Tally α) : Prop where
  distinct : (t.entries.map Prod.fst).Nodup
  stored : ∀ a, a ∈ t.entries.map Prod.fst ↔ a ∈ as
  order : (t.entries.map Prod.fst).Pairwise fun a b => as.idxOf a < as.idxOf b
  position : ∀ a i, t.positions.lookup a = some i ↔ (t.entries.map Prod.fst)[i]? = some a
  positive : ∀ e ∈ t.entries, 1 ≤ e.2
  total : (t.entries.map Prod.snd).foldr (· + ·) 0 = as.length
  found : ∀ a k, t.get? a = some k ↔ a ∈ as ∧ as.count a = k
  absent : ∀ a, t.get? a = none ↔ a ∉ as

theorem Holds.represents {as : List α} {t : Tally α} (h : Holds as t) : Represents as t := by
  have hitems : t.entries.map Prod.fst = as.eraseDups := by
    rw [h.entries, List.map_map]
    exact List.map_id' _
  have hcounts : t.entries.map Prod.snd = as.eraseDups.map as.count := by
    rw [h.entries, List.map_map]
    rfl
  constructor
  case distinct => rw [hitems]; exact nodup_eraseDups as
  case stored => intro a; rw [hitems, List.mem_eraseDups]
  case order => rw [hitems]; exact pairwise_eraseDups as
  case position => rw [hitems]; exact h.position
  case positive =>
    intro e he
    obtain ⟨ha, hn⟩ := h.mem_entries.1 he
    exact hn ▸ List.count_pos_iff.2 ha
  case total => rw [hcounts, total_count_eraseDups]
  case found => intro a k; simp [h.get?_eq]
  case absent => intro a; simp [h.get?_eq]

/-- After any additions, in any order of repeats and new items, a tally represents them; and what
is found in it does not depend on their order. -/
theorem represents_additions (as : List α) :
    Represents as (ofList as) ∧
    ∀ bs, bs.Perm as →
      (∀ a, (ofList bs).get? a = (ofList as).get? a) ∧
      ∀ e, e ∈ (ofList bs).entries ↔ e ∈ (ofList as).entries := by
  refine ⟨(holds_ofList as).represents, fun bs hperm => ⟨fun a => ?_, fun e => ?_⟩⟩
  · simp only [get?_ofList, hperm.mem_iff, hperm.count_eq]
  · rw [mem_entries_ofList, mem_entries_ofList, hperm.mem_iff, hperm.count_eq]

example : ofList ["b", "a", "b"] = ⟨[("b", 2), ("a", 1)], [("a", 1), ("b", 0)]⟩ := by decide

end ClassShape.Tally
