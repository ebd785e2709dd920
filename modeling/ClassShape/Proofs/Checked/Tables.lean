import ClassShape.Proofs.Accounting
import ClassShape.Proofs.Checked.Access

/-! Records kept beside what is known of their names: the position of each name, where a pool is
built, and the record of each name, where two sides are compared. Both stay in step with the
records, so no position and no name is asked for that is not there. -/
namespace ClassShape

namespace Checked

structure Table where
  records : List ClassRecord
  positions : List (String × Nat)

def Table.empty : Table := ⟨[], []⟩

def Table.put (t : Table) (r : ClassRecord) : Checked Table :=
  match t.positions.lookup r.name with
  | some i => do
    let records ← set i r t.records
    .ok ⟨records, t.positions⟩
  | none => .ok ⟨t.records ++ [r], (r.name, t.records.length) :: t.positions⟩

def pool (cs : List ClassRecord) : Checked (List ClassRecord) := do
  let table ← cs.foldlM Table.put .empty
  .ok table.records

/-- A name is put in order when its first record comes; its later records replace that one. -/
structure Index where
  order : List String
  byName : List (String × ClassRecord)

namespace Index

def add (ix : Index) (r : ClassRecord) : Index :=
  let order := if (ix.byName.lookup r.name).isNone then ix.order ++ [r.name] else ix.order
  ⟨order, (r.name, r) :: ix.byName⟩

def ofRecords (cs : List ClassRecord) : Index := cs.foldl add ⟨[], []⟩

def get (ix : Index) (name : String) : Checked ClassRecord :=
  match ix.byName.lookup name with
  | some r => .ok r
  | none => .error (.name name)

end Index

def node (labels : Labels) (reference candidate : Index) (name : String) : Checked Node := do
  let target ← reference.get name
  match candidate.byName.lookup name with
  | some counterpart => .ok (Comparison.classNode labels target counterpart)
  | none => .ok (Comparison.missingNode labels target)

def compare (labels : Labels) (reference candidate : List ClassRecord) : Checked (List Node) :=
  let index := Index.ofRecords reference
  index.order.mapM (node labels index (Index.ofRecords candidate))

def compareReport (labels : Labels) (reference candidate : List ClassRecord) : Checked Report := do
  let p := (Index.ofRecords reference).order.length
  let q := (Index.ofRecords candidate).order.length
  let nodes ← compare labels reference candidate
  .ok ⟨labels.reference, labels.candidate, nodes, p, q, Comparison.countNote labels p q⟩

end Checked

theorem Pool.insert_eq_set {r : ClassRecord} {cs : List ClassRecord} {i : Nat}
    (h : (cs.map ClassRecord.name).idxOf? r.name = some i) :
    i < cs.length ∧ insert r cs = cs.set i r := by
  induction cs generalizing i with
  | nil => simp at h
  | cons c cs ih =>
    rw [List.map_cons, List.idxOf?_cons] at h
    by_cases hc : c.name = r.name
    · obtain rfl : i = 0 := by simpa [hc, eq_comm] using h
      simp [insert, hc]
    · obtain ⟨j, hj, rfl⟩ : ∃ j, (cs.map ClassRecord.name).idxOf? r.name = some j ∧ j + 1 = i := by
        simpa [hc] using h
      obtain ⟨hlt, hset⟩ := ih hj
      exact ⟨by simpa using hlt, by simp [insert, hc, hset]⟩

namespace Checked
namespace Table
variable {t : Table} {r : ClassRecord}

/-- The position kept for a name is that of its record. -/
def InStep (t : Table) : Prop :=
  ∀ name, t.positions.lookup name = (t.records.map ClassRecord.name).idxOf? name

theorem inStep_empty : InStep empty := fun _ => rfl

theorem InStep.isSome_iff (ht : t.InStep) (name : String) :
    (t.positions.lookup name).isSome = true ↔ name ∈ t.records.map ClassRecord.name := by
  rw [ht, List.isSome_idxOf?]

/-- A record of a new name stands at the end, where its position says. -/
theorem InStep.concat (ht : t.InStep) (hr : r.name ∉ t.records.map ClassRecord.name) :
    InStep ⟨t.records ++ [r], (r.name, t.records.length) :: t.positions⟩ := by
  intro name
  rw [List.lookup_cons, ht name, List.map_append]
  simp only [List.idxOf?, List.findIdx?_append]
  by_cases hname : name = r.name
  · have hnone : (t.records.map ClassRecord.name).findIdx? (· == r.name) = none :=
      List.idxOf?_eq_none_iff.2 hr
    rw [hname, hnone]
    simp
  · rw [beq_false_of_ne hname]
    simp [Ne.symm hname]

theorem put_eq (ht : t.InStep) (r : ClassRecord) :
    ∃ positions, t.put r = .ok ⟨Pool.insert r t.records, positions⟩ ∧
      InStep ⟨Pool.insert r t.records, positions⟩ := by
  rw [put, ht]
  cases hi : (t.records.map ClassRecord.name).idxOf? r.name with
  | some i =>
    have hmem : r.name ∈ t.records.map ClassRecord.name :=
      List.isSome_idxOf?.1 (by rw [hi]; rfl)
    obtain ⟨hlt, hset⟩ := Pool.insert_eq_set hi
    refine ⟨t.positions, ?_, ?_⟩
    · simp only [set, if_pos hlt, ok_bind, hset]
    · intro name
      rw [Pool.names_insert_of_mem hmem]
      exact ht name
  | none =>
    have hnot := List.idxOf?_eq_none_iff.1 hi
    rw [Pool.insert_of_notMem hnot]
    exact ⟨_, rfl, ht.concat hnot⟩

/-- Record after record, the positions stay in step. -/
theorem foldlM_put (ht : t.InStep) (cs : List ClassRecord) :
    ∃ positions, cs.foldlM put t = .ok ⟨Pool.addAll t.records cs, positions⟩ := by
  induction cs generalizing t with
  | nil => exact ⟨t.positions, rfl⟩
  | cons c cs ih =>
    obtain ⟨positions, hput, hstep⟩ := put_eq ht c
    obtain ⟨final, hfinal⟩ := ih hstep
    refine ⟨final, ?_⟩
    rw [List.foldlM_cons, hput, ok_bind, hfinal]
    rfl

end Table

theorem pool_eq (cs : List ClassRecord) : pool cs = .ok (ClassShape.pool cs) := by
  obtain ⟨positions, h⟩ := Table.foldlM_put Table.inStep_empty cs
  rw [pool, h, ok_bind]
  rfl

namespace Index

theorem ofRecords_concat (cs : List ClassRecord) (r : ClassRecord) :
    ofRecords (cs ++ [r]) = (ofRecords cs).add r := by
  rw [ofRecords, List.foldl_append]
  rfl

theorem lookup_byName (cs : List ClassRecord) (name : String) :
    (ofRecords cs).byName.lookup name = lastOf? cs name := by
  induction cs using List.reverseRecOn with
  | nil => rfl
  | append_singleton cs r ih =>
    rw [ofRecords_concat, lastOf?_append, ← ih]
    by_cases hname : name = r.name
    · simp [add, lastOf?, hname]
    · simp [add, lastOf?, List.lookup_cons, beq_false_of_ne hname, Ne.symm hname]

theorem order_eq (cs : List ClassRecord) : (ofRecords cs).order = distinctNames cs := by
  induction cs using List.reverseRecOn with
  | nil => rfl
  | append_singleton cs r ih =>
    have hnew : ((ofRecords cs).byName.lookup r.name).isNone = true ↔
        r.name ∉ distinctNames cs := by
      rw [lookup_byName, Option.isNone_iff_eq_none, lastOf?_eq_none_iff, mem_distinctNames]
    rw [ofRecords_concat, distinctNames_append]
    by_cases hr : r.name ∈ distinctNames cs <;> simp [add, hnew, hr, ih, distinctNames]

theorem get_eq {cs : List ClassRecord} {name : String} {r : ClassRecord}
    (h : lastOf? cs name = some r) : (ofRecords cs).get name = .ok r := by
  rw [get, lookup_byName, h]

end Index

/-- Each name that is put in order has a record. -/
theorem compare_eq (labels : Labels) (reference candidate : List ClassRecord) :
    compare labels reference candidate = .ok (ClassShape.compare labels reference candidate) := by
  rw [compare, Index.order_eq, ClassShape.compare]
  apply mapM_eq_filterMap
  intro name hname
  obtain ⟨target, hlatest, htarget⟩ := exists_latest (mem_distinctNames.1 hname)
  have hlast := lastOf?_eq_some_iff.2 ⟨hlatest, htarget⟩
  rw [node, Index.get_eq hlast, ok_bind, Index.lookup_byName, hlast]
  cases lastOf? candidate name with
  | none => exact ⟨_, rfl, rfl⟩
  | some counterpart => exact ⟨_, rfl, rfl⟩

theorem compareReport_eq (labels : Labels) (reference candidate : List ClassRecord) :
    compareReport labels reference candidate =
      .ok (ClassShape.compareReport labels reference candidate) := by
  simp only [compareReport, compare_eq, ok_bind, Index.order_eq, ClassShape.compareReport]

end Checked
end ClassShape
