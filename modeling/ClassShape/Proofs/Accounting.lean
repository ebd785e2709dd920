import ClassShape.Proofs.Naming
import ClassShape.Proofs.Pooling
import ClassShape.Proofs.Tally

/-! Every declaration of a unit is accounted for: it gives a class of a new name, or an advisory.
The classes are the pool of the complete declarations; those that never close leave it alone. -/
namespace ClassShape

theorem latest_concat {rs : List ClassRecord} {r c : ClassRecord} :
    Latest (rs ++ [r]) c ↔ c = r ∨ (Latest rs c ∧ c.name ≠ r.name) := by
  constructor
  · intro h
    obtain ⟨before, after, heq, hafter⟩ := h
    cases after using List.reverseRecOn with
    | nil => exact Or.inl (by simpa using (List.append_inj' heq rfl).2.symm)
    | append_singleton after last =>
      have hsplit : rs ++ [r] = (before ++ c :: after) ++ [last] := by simpa using heq
      obtain ⟨rfl, hlast⟩ := List.append_inj' hsplit rfl
      obtain rfl : r = last := by simpa using hlast
      exact Or.inr ⟨⟨before, after, rfl, fun d hd => hafter d (by simp [hd])⟩,
        Ne.symm (hafter r (by simp))⟩
  · intro h
    rcases h with rfl | ⟨⟨before, after, rfl, hafter⟩, hname⟩
    · exact ⟨rs, [], rfl, by simp⟩
    · refine ⟨before, after ++ [r], by simp, fun d hd => ?_⟩
      rcases List.mem_append.1 hd with hd | hd
      · exact hafter d hd
      · rw [List.mem_singleton.1 hd]
        exact Ne.symm hname

namespace Pool
variable {r c : ClassRecord} {cs rs : List ClassRecord}

theorem names_insert_of_mem (h : r.name ∈ cs.map ClassRecord.name) :
    (insert r cs).map ClassRecord.name = cs.map ClassRecord.name := by
  induction cs with
  | nil => simp at h
  | cons c cs ih =>
    by_cases hc : c.name = r.name
    · simp [insert, hc]
    · have ht : r.name ∈ cs.map ClassRecord.name := by
        simpa only [List.map_cons, List.mem_cons, Ne.symm hc, false_or] using h
      simp [insert, hc, ih ht]

theorem mem_insert_iff (hn : (cs.map ClassRecord.name).Nodup) :
    c ∈ insert r cs ↔ c = r ∨ (c ∈ cs ∧ c.name ≠ r.name) := by
  induction cs with
  | nil => simp [insert]
  | cons d cs ih =>
    rw [List.map_cons, List.nodup_cons] at hn
    by_cases hd : d.name = r.name
    · have hother : c ∈ cs → c.name ≠ r.name := fun hc he =>
        hn.1 (hd.trans he.symm ▸ List.mem_map_of_mem hc)
      rw [insert, if_pos hd, List.mem_cons]
      grind
    · rw [insert, if_neg hd, List.mem_cons, ih hn.2]
      grind

theorem pool_concat (rs : List ClassRecord) (r : ClassRecord) :
    pool (rs ++ [r]) = insert r (pool rs) := by
  simp [pool, addAll]

/-- The names of a pool, in the order of first occurrence. -/
theorem names_pool (rs : List ClassRecord) :
    (pool rs).map ClassRecord.name = (rs.map ClassRecord.name).eraseDups := by
  induction rs using List.reverseRecOn with
  | nil => rfl
  | append_singleton rs r ih =>
    rw [pool_concat, List.map_append, List.map_singleton]
    by_cases hr : r.name ∈ rs.map ClassRecord.name
    · have hpooled : r.name ∈ (pool rs).map ClassRecord.name := by
        rw [ih]
        exact List.mem_eraseDups.2 hr
      rw [names_insert_of_mem hpooled, ih, Tally.eraseDups_concat_of_mem hr]
    · have hpooled : r.name ∉ (pool rs).map ClassRecord.name := by
        rw [ih]
        exact fun h => hr (List.mem_eraseDups.1 h)
      rw [insert_of_notMem hpooled, List.map_append, List.map_singleton, ih,
        Tally.eraseDups_concat_of_notMem hr]

theorem nodup_names_pool (rs : List ClassRecord) : ((pool rs).map ClassRecord.name).Nodup := by
  rw [names_pool]
  exact Tally.nodup_eraseDups _

/-- A pool holds the last record of each name. -/
theorem mem_pool : c ∈ pool rs ↔ Latest rs c := by
  induction rs using List.reverseRecOn with
  | nil => simp [pool, addAll, Latest]
  | append_singleton rs r ih =>
    rw [pool_concat, mem_insert_iff (nodup_names_pool rs), ih, latest_concat]

end Pool

/-- The advisory that a declaration gives behind those before it. -/
def Declaration.advisory? (earlier : List Declaration) : Declaration → Option Advisory
  | .unclosed name => some (.unbalanced name)
  | .complete body =>
    if body.name ∈ (earlier.filterMap record?).map ClassRecord.name then some (.duplicate body.name)
    else none

def Declaration.isComplete : Declaration → Bool
  | .complete _ => true
  | .unclosed _ => false

def Advisory.duplicated? : Advisory → Option String
  | .duplicate name => some name
  | _ => none

namespace Outcome
variable {ds : List Declaration} {d : Declaration} {o : Outcome}

theorem classes_add (o : Outcome) (d : Declaration) :
    (o.add d).classes = Pool.addAll o.classes d.record?.toList := by
  cases d <;> rfl

theorem classes_foldl_add (ds : List Declaration) (o : Outcome) :
    (ds.foldl add o).classes = Pool.addAll o.classes (ds.filterMap Declaration.record?) := by
  induction ds generalizing o with
  | nil => rfl
  | cons d ds ih =>
    rw [List.foldl_cons, ih, classes_add]
    cases hd : d.record? with
    | none => simp [hd, Pool.addAll]
    | some r => simp [hd, Pool.addAll]

theorem ofDeclarations_of_ne_nil (h : ds ≠ []) : ofDeclarations ds = ds.foldl add empty := by
  cases ds with
  | nil => exact absurd rfl h
  | cons d ds => rfl

/-- The classes of a unit are the pool of its complete declarations. -/
theorem classes_ofDeclarations (ds : List Declaration) :
    (ofDeclarations ds).classes = pool (ds.filterMap Declaration.record?) := by
  cases ds with
  | nil => rfl
  | cons d ds => exact classes_foldl_add (d :: ds) empty

theorem advisories_add (h : o.classes = pool (ds.filterMap Declaration.record?)) :
    (o.add d).advisories = o.advisories ++ (d.advisory? ds).toList := by
  cases d with
  | unclosed name => rfl
  | complete body =>
    have hfound : Pool.contains o.classes body.name = true ↔
        body.name ∈ (ds.filterMap Declaration.record?).map ClassRecord.name := by
      rw [Pool.contains_iff, h, Pool.names_pool, List.mem_eraseDups]
    simp only [add, ClassBody.classRecord, hfound, Declaration.advisory?]
    split <;> rfl

/-- Each declaration is judged against those before it. -/
theorem advisories_foldl_add (ds : List Declaration) :
    (ds.foldl add empty).advisories =
      ds.zipIdx.filterMap fun (d, i) => d.advisory? (ds.take i) := by
  induction ds using List.reverseRecOn with
  | nil => rfl
  | append_singleton ds d ih =>
    have hearlier : ∀ e ∈ ds.zipIdx,
        e.1.advisory? ((ds ++ [d]).take e.2) = e.1.advisory? (ds.take e.2) := by
      intro e he
      have hlt : e.2 < ds.length := List.snd_lt_of_mem_zipIdx he
      rw [List.take_append_of_le_length (Nat.le_of_lt hlt)]
    rw [List.foldl_append, List.foldl_cons, List.foldl_nil,
      advisories_add (classes_foldl_add ds empty), ih, List.zipIdx_append, List.filterMap_append,
      List.filterMap_congr hearlier]
    cases hd : d.advisory? ds <;> simp [hd]

/-- A declaration adds a class or an advisory, never both. -/
theorem length_add (o : Outcome) (d : Declaration) :
    (o.add d).classes.length + (o.add d).advisories.length =
      o.classes.length + o.advisories.length + 1 := by
  cases d with
  | unclosed name => simp [add, Nat.add_assoc]
  | complete body =>
    by_cases h : body.classRecord.name ∈ o.classes.map ClassRecord.name
    · have hlength := congrArg List.length (Pool.names_insert_of_mem h)
      simp only [List.length_map] at hlength
      simp [add, Pool.contains_iff.2 h, hlength, Nat.add_assoc]
    · have hnew : ¬ Pool.contains o.classes body.classRecord.name = true :=
        fun hc => h (Pool.contains_iff.1 hc)
      simp [add, hnew, Pool.insert_of_notMem h]
      omega

theorem length_foldl_add (ds : List Declaration) (o : Outcome) :
    (ds.foldl add o).classes.length + (ds.foldl add o).advisories.length =
      o.classes.length + o.advisories.length + ds.length := by
  induction ds generalizing o with
  | nil => rfl
  | cons d ds ih =>
    rw [List.foldl_cons, ih, length_add, List.length_cons]
    omega

def duplicates (o : Outcome) : List String := o.advisories.filterMap Advisory.duplicated?

theorem duplicates_add_unclosed (o : Outcome) (name : String) :
    (o.add (.unclosed name)).duplicates = o.duplicates := by
  simp [add, duplicates, Advisory.duplicated?]

theorem duplicates_add_congr {k : Outcome} (hc : o.classes = k.classes)
    (hd : o.duplicates = k.duplicates) (d : Declaration) :
    (o.add d).duplicates = (k.add d).duplicates := by
  unfold duplicates at hd
  cases d with
  | unclosed name => simp [add, duplicates, hd]
  | complete body => simp only [add, duplicates, hc, hd, List.filterMap_append]

theorem duplicates_foldl_add (ds : List Declaration) {o k : Outcome} (hc : o.classes = k.classes)
    (hd : o.duplicates = k.duplicates) :
    (ds.foldl add o).duplicates = ((ds.filter Declaration.isComplete).foldl add k).duplicates := by
  induction ds generalizing o k with
  | nil => exact hd
  | cons d ds ih =>
    cases d with
    | unclosed name => exact ih hc ((duplicates_add_unclosed o name).trans hd)
    | complete body =>
      have hclasses : (o.add (.complete body)).classes = (k.add (.complete body)).classes := by
        rw [classes_add, classes_add, hc]
      exact ih hclasses (duplicates_add_congr hc hd _)

theorem duplicates_ofDeclarations (ds : List Declaration) :
    (ofDeclarations ds).duplicates = (ds.foldl add empty).duplicates := by
  cases ds with
  | nil => rfl
  | cons d ds => rfl

/-- Declarations that never close leave the classes and the duplicates as they are. -/
theorem ofDeclarations_filter_complete (ds : List Declaration) :
    (ofDeclarations (ds.filter Declaration.isComplete)).classes = (ofDeclarations ds).classes ∧
    (ofDeclarations (ds.filter Declaration.isComplete)).duplicates =
      (ofDeclarations ds).duplicates := by
  constructor
  · rw [classes_ofDeclarations, classes_ofDeclarations, List.filterMap_filter]
    refine congrArg pool (List.filterMap_congr fun d _ => ?_)
    cases d <;> rfl
  · rw [duplicates_ofDeclarations, duplicates_ofDeclarations]
    exact (duplicates_foldl_add ds rfl rfl).symm

end Outcome

/-- The record that stands for its name among the complete declarations is that of the last of
them with this name. -/
theorem exists_last_complete {ds : List Declaration} {r : ClassRecord}
    (h : Latest (ds.filterMap Declaration.record?) r) :
    ∃ before body after, ds = before ++ .complete body :: after ∧ r = body.classRecord ∧
      ∀ later, .complete later ∈ after → later.name ≠ body.name := by
  obtain ⟨earlier, later, heq, hlater⟩ := h
  obtain ⟨before, rest, rfl, -, hrest⟩ := List.filterMap_eq_append_iff.1 heq
  obtain ⟨between, d, after, rfl, -, hd, rfl⟩ := List.filterMap_eq_cons_iff.1 hrest
  cases d with
  | unclosed name => simp [Declaration.record?] at hd
  | complete body =>
    cases hd
    refine ⟨before ++ between, body, after, by simp, rfl, fun other hother => ?_⟩
    exact hlater other.classRecord (List.mem_filterMap.2 ⟨_, hother, rfl⟩)

/-- Each declaration of a unit gives one class or one advisory. The classes have distinct names, in
the order in which these were first declared completely, each with the content of its last complete
declaration; a declaration that never closes gives its advisory and touches no class. -/
theorem parse_accounts (source : String) :
    let ds := declarations (Comment.strip source)
    let o := parse source
    (ds = [] →
      o.classes = [] ∧ o.advisories.map Advisory.message = ["no class declarations found"]) ∧
    (ds ≠ [] →
      o.classes.length + o.advisories.length = ds.length ∧
      o.advisories = ds.zipIdx.filterMap fun (d, i) => d.advisory? (ds.take i)) ∧
    (o.classes.map ClassRecord.name).Nodup ∧
    o.classes.map ClassRecord.name =
      ((ds.filterMap Declaration.record?).map ClassRecord.name).eraseDups ∧
    (∀ r ∈ o.classes, ∃ before body after, ds = before ++ .complete body :: after ∧
      r.name = body.name ∧ r.parent = body.parent ∧ r.attributes = attributes body.text ∧
      r.methods = methods body.text ∧
      ∀ later, .complete later ∈ after → later.name ≠ body.name) ∧
    ((Outcome.ofDeclarations (ds.filter Declaration.isComplete)).classes = o.classes ∧
      (Outcome.ofDeclarations (ds.filter Declaration.isComplete)).duplicates = o.duplicates) ∧
    (o.classes = [] → o.advisories ≠ []) := by
  intro ds o
  have ho : o = Outcome.ofDeclarations ds := rfl
  have hclasses := Outcome.classes_ofDeclarations ds
  have hlength : ds ≠ [] → o.classes.length + o.advisories.length = ds.length := by
    intro hds
    rw [ho, Outcome.ofDeclarations_of_ne_nil hds, Outcome.length_foldl_add]
    simp [Outcome.empty]
  refine ⟨fun hds => ?_, fun hds => ⟨hlength hds, ?_⟩, ?_, ?_, ?_, ?_, fun hnone => ?_⟩
  · rw [ho, hds]
    exact ⟨rfl, rfl⟩
  · rw [ho, Outcome.ofDeclarations_of_ne_nil hds, Outcome.advisories_foldl_add]
  · rw [ho, hclasses]
    exact Pool.nodup_names_pool _
  · rw [ho, hclasses, Pool.names_pool]
  · intro r hr
    rw [ho, hclasses, Pool.mem_pool] at hr
    obtain ⟨before, body, after, hds, rfl, hafter⟩ := exists_last_complete hr
    exact ⟨before, body, after, hds, rfl, rfl, rfl, rfl, hafter⟩
  · exact Outcome.ofDeclarations_filter_complete ds
  · by_cases hds : ds = []
    · rw [ho, hds]
      simp [Outcome.ofDeclarations]
    · have hpos := List.length_pos_iff.2 hds
      rw [← hlength hds, hnone] at hpos
      exact List.length_pos_iff.1 (by simpa using hpos)

end ClassShape
