import ClassShape.Proofs.Checked.Tables
import ClassShape.Proofs.Disclosure

/-! Laws of pooling. A pool lists the names of its records in the order in which they first occur
and answers every look-up as the records do. Hence parts may be pooled before the whole, and no
comparison can tell a side from its pool. -/
namespace ClassShape

theorem distinctNames_eq_eraseDups (rs : List ClassRecord) :
    distinctNames rs = (rs.map ClassRecord.name).eraseDups := by
  induction rs using List.reverseRecOn with
  | nil => rfl
  | append_singleton rs r ih =>
    have hmem : r.name ∈ distinctNames rs ↔ r.name ∈ rs.map ClassRecord.name := by
      rw [ih, List.mem_eraseDups]
    rw [distinctNames_append, List.map_append, List.map_singleton]
    by_cases hr : r.name ∈ rs.map ClassRecord.name
    · rw [Tally.eraseDups_concat_of_mem hr, ← ih]
      simp [distinctNames, hmem.2 hr]
    · rw [Tally.eraseDups_concat_of_notMem hr, ← ih]
      simp [distinctNames, mt hmem.1 hr]

theorem distinctNames_of_nodup {rs : List ClassRecord} (h : (rs.map ClassRecord.name).Nodup) :
    distinctNames rs = rs.map ClassRecord.name := by
  induction rs with
  | nil => rfl
  | cons r rs ih =>
    rw [List.map_cons, List.nodup_cons] at h
    have hother : ∀ name ∈ rs.map ClassRecord.name, decide (name ≠ r.name) = true := by
      intro name hname
      exact decide_eq_true fun he => h.1 (he ▸ hname)
    rw [distinctNames, ih h.2, List.filter_eq_self.2 hother, List.map_cons]

/-- Where all names are distinct, every record stands for its name. -/
theorem latestRecords_of_nodup {rs : List ClassRecord} (h : (rs.map ClassRecord.name).Nodup) :
    latestRecords rs = rs := by
  have hself : ∀ r ∈ rs, lastOf? rs r.name = some r := by
    intro r hr
    exact lastOf?_eq_some_iff.2 ⟨(latest_iff_mem h).2 hr, rfl⟩
  rw [latestRecords, distinctNames_of_nodup h, List.filterMap_map]
  exact (List.filterMap_congr hself).trans List.filterMap_some

namespace Pool

/-- Pooling keeps every look-up. -/
theorem lastOf?_pool (rs : List ClassRecord) (name : String) :
    lastOf? (pool rs) name = lastOf? rs name := by
  ext r
  rw [lastOf?_eq_some_iff, lastOf?_eq_some_iff, latest_iff_mem (nodup_names_pool rs), mem_pool]

theorem distinctNames_pool (rs : List ClassRecord) :
    distinctNames (pool rs) = distinctNames rs := by
  rw [distinctNames_of_nodup (nodup_names_pool rs), names_pool, distinctNames_eq_eraseDups]

/-- A pool consists of the records that a comparison looks up. -/
theorem pool_eq_latestRecords (rs : List ClassRecord) : pool rs = latestRecords rs :=
  calc
    pool rs = latestRecords (pool rs) := (latestRecords_of_nodup (nodup_names_pool rs)).symm
    _ = latestRecords rs := by
      rw [latestRecords, latestRecords, distinctNames_pool, funext (lastOf?_pool rs)]

theorem pool_congr {xs ys : List ClassRecord} (hnames : distinctNames xs = distinctNames ys)
    (hlast : ∀ name, lastOf? xs name = lastOf? ys name) : pool xs = pool ys := by
  rw [pool_eq_latestRecords, pool_eq_latestRecords, latestRecords, latestRecords, hnames,
    funext hlast]

theorem pool_pool (rs : List ClassRecord) : pool (pool rs) = pool rs :=
  pool_congr (distinctNames_pool rs) (lastOf?_pool rs)

/-- Parts may be pooled before the whole. -/
theorem pool_append (xs ys : List ClassRecord) :
    pool (xs ++ ys) = pool (pool xs ++ pool ys) := by
  apply pool_congr
  · rw [distinctNames_append, distinctNames_append, distinctNames_pool, distinctNames_pool]
  · intro name
    rw [lastOf?_append, lastOf?_append, lastOf?_pool, lastOf?_pool]

theorem length_pool_le (rs : List ClassRecord) : (pool rs).length ≤ rs.length := by
  have hsub : pool rs ⊆ rs := fun r hr => (mem_pool.1 hr).mem
  exact ((nodup_names_pool rs).of_map.subperm hsub).length_le

theorem pool_eq_nil_iff {rs : List ClassRecord} : pool rs = [] ↔ rs = [] := by
  cases rs with
  | nil => simp [pool, addAll]
  | cons r rs =>
    have hnames := distinctNames_pool (r :: rs)
    constructor
    · intro h
      simp [h, distinctNames] at hnames
    · intro h
      cases h

end Pool

theorem compareReport_pool (labels : Labels) (reference candidate : List ClassRecord) :
    compareReport labels (pool reference) (pool candidate) =
      compareReport labels reference candidate := by
  simp only [compareReport, compare, Pool.distinctNames_pool, Pool.lastOf?_pool]

/-- A name that is declared more than once keeps the place of its first record and the content of
its last one, in a unit, in a pool and in a comparison, which each keep their own tables. So pooling
twice, or part by part, gives the same pool, and a side compares as its pool does. -/
theorem duplicates_pooled_alike :
    (∀ rs : List ClassRecord,
      Checked.pool rs = .ok (pool rs) ∧
      ((pool rs).map ClassRecord.name).Nodup ∧
      (pool rs).map ClassRecord.name = (rs.map ClassRecord.name).eraseDups ∧
      (∀ r, r ∈ pool rs ↔ Latest rs r) ∧
      pool (pool rs) = pool rs) ∧
    (∀ xs ys : List ClassRecord, pool (xs ++ ys) = pool (pool xs ++ pool ys)) ∧
    (∀ (labels : Labels) (reference candidate : List ClassRecord),
      Checked.compareReport labels reference candidate =
        .ok (compareReport labels reference candidate) ∧
      compareReport labels (pool reference) (pool candidate) =
        compareReport labels reference candidate) ∧
    (∀ source : String, (parse source).classes =
      pool ((declarations (Comment.strip source)).filterMap Declaration.record?)) := by
  refine ⟨fun rs => ?_, Pool.pool_append, fun labels reference candidate => ?_, fun source => ?_⟩
  · exact ⟨Checked.pool_eq rs, Pool.nodup_names_pool rs, Pool.names_pool rs, fun r => Pool.mem_pool,
      Pool.pool_pool rs⟩
  · exact ⟨Checked.compareReport_eq labels reference candidate,
      compareReport_pool labels reference candidate⟩
  · exact Outcome.classes_ofDeclarations _

end ClassShape
