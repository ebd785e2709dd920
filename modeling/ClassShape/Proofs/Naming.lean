import ClassShape.Report.Comparison
import Mathlib.Data.Finset.Card

/-! Names and last records. Both sides of a comparison are read through these: how many names a
side has, and which record stands for a name. -/
namespace ClassShape

def classNames (cs : List ClassRecord) : Finset String := (cs.map ClassRecord.name).toFinset

/-- `r` stands for its name: no later record has it. -/
def Latest (cs : List ClassRecord) (r : ClassRecord) : Prop :=
  ∃ before after, cs = before ++ r :: after ∧ ∀ c ∈ after, c.name ≠ r.name

theorem mem_classNames {cs : List ClassRecord} {name : String} :
    name ∈ classNames cs ↔ ∃ c ∈ cs, c.name = name := by
  simp [classNames]

theorem mem_distinctNames {cs : List ClassRecord} {name : String} :
    name ∈ distinctNames cs ↔ name ∈ classNames cs := by
  rw [mem_classNames]
  induction cs with
  | nil => simp [distinctNames]
  | cons c cs ih =>
    by_cases hc : name = c.name
    · simp [distinctNames, hc]
    · simp [distinctNames, hc, Ne.symm hc, ih]

theorem nodup_distinctNames (cs : List ClassRecord) : (distinctNames cs).Nodup := by
  induction cs with
  | nil => simp [distinctNames]
  | cons c cs ih => exact List.nodup_cons.2 ⟨by simp, ih.filter _⟩

theorem distinctNames_append (xs ys : List ClassRecord) :
    distinctNames (xs ++ ys) =
      distinctNames xs ++ (distinctNames ys).filter (· ∉ distinctNames xs) := by
  induction xs with
  | nil => simp [distinctNames]
  | cons x xs ih =>
    have hfree : ∀ name ∈ distinctNames ys,
        (decide (name ≠ x.name) && decide (name ∉ distinctNames xs)) =
          decide (name ∉ distinctNames (x :: xs)) := by
      intro name _
      by_cases hx : name = x.name <;> simp [distinctNames, hx]
    rw [List.cons_append, distinctNames, ih, List.filter_append, List.filter_filter,
      List.filter_congr hfree, distinctNames, List.cons_append]

theorem card_classNames (cs : List ClassRecord) :
    (classNames cs).card = (distinctNames cs).length := by
  have hset : classNames cs = (distinctNames cs).toFinset := by
    ext name
    rw [List.mem_toFinset, mem_distinctNames]
  rw [hset, List.toFinset_card_of_nodup (nodup_distinctNames cs)]

theorem lastOf?_eq_some_iff {cs : List ClassRecord} {name : String} {r : ClassRecord} :
    lastOf? cs name = some r ↔ Latest cs r ∧ r.name = name := by
  rw [lastOf?, List.find?_eq_some_iff_append]
  constructor
  · intro hfind
    obtain ⟨hr, later, earlier, hcs, hlater⟩ := hfind
    have hname : r.name = name := by simpa using hr
    refine ⟨⟨earlier.reverse, later.reverse, ?_, ?_⟩, hname⟩
    · simpa using congrArg List.reverse hcs
    · intro c hc
      simpa [hname] using hlater c (List.mem_reverse.1 hc)
  · intro hlatest
    obtain ⟨⟨before, after, rfl, hafter⟩, rfl⟩ := hlatest
    refine ⟨by simp, after.reverse, before.reverse, by simp, ?_⟩
    intro c hc
    simpa using hafter c (List.mem_reverse.1 hc)

theorem lastOf?_eq_none_iff {cs : List ClassRecord} {name : String} :
    lastOf? cs name = none ↔ name ∉ classNames cs := by
  rw [lastOf?, List.find?_eq_none, mem_classNames]
  simp

theorem lastOf?_append (xs ys : List ClassRecord) (name : String) :
    lastOf? (xs ++ ys) name = (lastOf? ys name).or (lastOf? xs name) := by
  simp [lastOf?, List.find?_append]

theorem lastOf?_cons (r : ClassRecord) (xs : List ClassRecord) (name : String) :
    lastOf? (r :: xs) name = (lastOf? xs name).or (if r.name = name then some r else none) := by
  by_cases h : r.name = name <;> simp [lastOf?, List.find?_append, h]

namespace Latest
variable {cs : List ClassRecord} {r s : ClassRecord}

theorem mem (h : Latest cs r) : r ∈ cs := by
  obtain ⟨before, after, rfl, _⟩ := h
  simp

theorem name_mem (h : Latest cs r) : r.name ∈ classNames cs :=
  mem_classNames.2 ⟨r, h.mem, rfl⟩

theorem eq_of_name (hr : Latest cs r) (hs : Latest cs s) (h : r.name = s.name) : r = s := by
  have hr' := lastOf?_eq_some_iff.2 ⟨hr, h⟩
  have hs' := lastOf?_eq_some_iff.2 ⟨hs, rfl⟩
  exact Option.some.inj (hr'.symm.trans hs')

end Latest

theorem exists_latest {cs : List ClassRecord} {name : String} (h : name ∈ classNames cs) :
    ∃ r, Latest cs r ∧ r.name = name := by
  cases hr : lastOf? cs name with
  | none => exact absurd h (lastOf?_eq_none_iff.1 hr)
  | some r => exact ⟨r, lastOf?_eq_some_iff.1 hr⟩

end ClassShape
