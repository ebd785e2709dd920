import ClassShape.SourceUnit

/-! Pooling declarations. Every record of a unit is that of a declaration; declarations of distinct
names give all their records, in order, and nothing to report. -/
namespace ClassShape

def Declaration.record? : Declaration → Option ClassRecord
  | .complete body => some body.classRecord
  | .unclosed _ => none

namespace Pool
variable {r : ClassRecord} {cs : List ClassRecord}

theorem contains_iff {name : String} : contains cs name = true ↔ name ∈ cs.map (·.name) := by
  simp [contains]

theorem insert_of_notMem (h : r.name ∉ cs.map (·.name)) : insert r cs = cs ++ [r] := by
  induction cs with
  | nil => rfl
  | cons c cs ih =>
    simp only [List.map_cons, List.mem_cons, not_or] at h
    rw [insert, if_neg (Ne.symm h.1), ih h.2, List.cons_append]

theorem mem_of_mem_insert {c : ClassRecord} (h : c ∈ insert r cs) : c = r ∨ c ∈ cs := by
  fun_induction insert r cs with
  | case1 => simpa using h
  | case2 d ds _ =>
    rcases List.mem_cons.1 h with rfl | hc
    · exact Or.inl rfl
    · exact Or.inr (List.mem_cons_of_mem d hc)
  | case3 d ds _ ih =>
    rcases List.mem_cons.1 h with rfl | hc
    · exact Or.inr (by simp)
    · exact (ih hc).imp_right (List.mem_cons_of_mem d)

end Pool

namespace Outcome
variable {o : Outcome} {d : Declaration} {ds : List Declaration} {r : ClassRecord}

/-- A record of a new name is put at the end, and nothing is reported. -/
theorem add_of_notMem (hd : d.record? = some r)
    (hr : r.name ∉ o.classes.map (·.name)) : o.add d = ⟨o.classes ++ [r], o.advisories⟩ := by
  cases d with
  | unclosed name => simp [Declaration.record?] at hd
  | complete body =>
    cases hd
    have hnew : ¬ Pool.contains o.classes body.classRecord.name = true :=
      fun hmem => hr (Pool.contains_iff.1 hmem)
    simp only [add, Pool.insert_of_notMem hr, if_neg hnew, List.append_nil]

theorem foldl_add {rs : List ClassRecord} (hds : ds.map Declaration.record? = rs.map some)
    (hnames : ((o.classes ++ rs).map (·.name)).Nodup) :
    ds.foldl add o = ⟨o.classes ++ rs, o.advisories⟩ := by
  induction rs generalizing ds o with
  | nil =>
    have hnil : ds = [] := by simpa using hds
    simp [hnil]
  | cons r rs ih =>
    obtain ⟨d, es, rfl, hd, hes⟩ := List.map_eq_cons_iff.1 hds
    have hr : r.name ∉ o.classes.map (·.name) := by
      intro hmem
      rw [List.map_append, List.nodup_append] at hnames
      exact hnames.2.2 _ hmem _ (by simp) rfl
    have hstep := ih (o := ⟨o.classes ++ [r], o.advisories⟩) hes (by simpa using hnames)
    rw [List.foldl_cons, add_of_notMem hd hr, hstep, List.append_assoc, List.singleton_append]

theorem mem_of_mem_add (h : r ∈ (o.add d).classes) : r ∈ o.classes ∨ d.record? = some r := by
  cases d with
  | unclosed name => exact Or.inl h
  | complete body =>
    rcases Pool.mem_of_mem_insert h with rfl | hr
    · exact Or.inr rfl
    · exact Or.inl hr

theorem mem_of_mem_foldl (h : r ∈ (ds.foldl add o).classes) :
    r ∈ o.classes ∨ ∃ d ∈ ds, d.record? = some r := by
  induction ds generalizing o with
  | nil => exact Or.inl h
  | cons d ds ih =>
    rcases ih h with hadd | ⟨e, he, hr⟩
    · exact (mem_of_mem_add hadd).imp_right fun hd => ⟨d, by simp, hd⟩
    · exact Or.inr ⟨e, List.mem_cons_of_mem d he, hr⟩

/-- Every record of a unit is that of one of its declarations. -/
theorem exists_declaration (h : r ∈ (ofDeclarations ds).classes) :
    ∃ d ∈ ds, d.record? = some r := by
  cases ds with
  | nil => simp [ofDeclarations] at h
  | cons d ds => exact (mem_of_mem_foldl h).resolve_left List.not_mem_nil

end Outcome
end ClassShape
