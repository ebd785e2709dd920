import ClassShape.Batch.Scan
import ClassShape.Proofs.PoolLaws

/-! Batches of files. What a batch gives is put together from what each of its files gives alone, so
it does not matter how the batch is cut; and its statistics add up: every file is counted once, and
none that gave no class goes without an error. -/
namespace ClassShape

namespace Stats

theorem empty_merge (s : Stats) : merge {} s = s := by
  cases s
  simp [merge]

theorem merge_empty (s : Stats) : merge s {} = s := by
  cases s
  simp [merge]

theorem merge_assoc (s t u : Stats) : (s.merge t).merge u = s.merge (t.merge u) := by
  simp [merge, Nat.add_assoc]

theorem foldl_merge (s : Stats) (ts : List Stats) :
    ts.foldl merge s = s.merge (ts.foldl merge {}) := by
  induction ts generalizing s with
  | nil => exact (merge_empty s).symm
  | cons t ts ih =>
    rw [List.foldl_cons, List.foldl_cons, ih, ih (merge {} t), empty_merge, merge_assoc]

structure Consistent (s : Stats) : Prop where
  total : s.totalFiles = s.filesWithClasses + s.emptyFiles + s.errorFiles
  paths : s.errorPaths.length = s.errorFiles
  classes : s.filesWithClasses ≤ s.totalClasses
  skipped : s.skipped ≤ s.advisories

namespace Consistent

theorem empty : Consistent {} := ⟨rfl, rfl, Nat.le_refl 0, Nat.le_refl 0⟩

theorem merge {s t : Stats} (hs : s.Consistent) (ht : t.Consistent) : (s.merge t).Consistent := by
  obtain ⟨htotal, hpaths, hclasses, hskipped⟩ := hs
  obtain ⟨htotal', hpaths', hclasses', hskipped'⟩ := ht
  unfold Stats.skipped at hskipped hskipped'
  refine ⟨?_, ?_, ?_, ?_⟩
  · simp only [Stats.merge]
    omega
  · simp only [Stats.merge, List.length_append]
    omega
  · simp only [Stats.merge]
    omega
  · simp only [Stats.merge, Stats.skipped]
    omega

end Consistent
end Stats

/-- A unit without classes has something to report. -/
theorem Outcome.advisories_ne_nil {ds : List Declaration} (h : (ofDeclarations ds).classes = []) :
    (ofDeclarations ds).advisories ≠ [] := by
  cases ds with
  | nil => simp [ofDeclarations]
  | cons d ds =>
    have hlength := length_foldl_add (d :: ds) empty
    rw [← ofDeclarations_of_ne_nil (List.cons_ne_nil d ds), h] at hlength
    intro hnone
    simp [hnone, empty] at hlength

namespace FileOutcome
variable {o : FileOutcome} {path : Bytes}

theorem totalFiles_stats (o : FileOutcome) (path : Bytes) : (o.stats path).totalFiles = 1 := by
  unfold stats
  split
  · rfl
  · split <;> rfl

theorem advisories_stats (o : FileOutcome) (path : Bytes) :
    (o.stats path).advisories = o.messages.length := by
  unfold stats
  split
  · rfl
  · split <;> rfl

theorem totalClasses_stats (o : FileOutcome) (path : Bytes) :
    (o.stats path).totalClasses = o.classes.length := by
  cases o with
  | error e => rfl
  | ok outcome =>
    cases hc : outcome.classes with
    | nil => simp [stats, classes, hc]
    | cons c cs => simp [stats, classes, hc]

theorem errorPaths_stats (o : FileOutcome) (path : Bytes) :
    (o.stats path).errorPaths = if o.isOk then [] else [path] := by
  cases o with
  | error e => rfl
  | ok outcome =>
    cases hc : outcome.classes with
    | nil => simp [stats, hc, Except.isOk, Except.toBool]
    | cons c cs => simp [stats, hc, Except.isOk, Except.toBool]

/-- One file adds one to one of the three counts; it reports something unless it has classes. -/
theorem consistent_stats (h : o.classes = [] → o.messages ≠ []) : (o.stats path).Consistent := by
  cases o with
  | error e => exact ⟨rfl, rfl, Nat.le_refl 0, Nat.le_refl 1⟩
  | ok outcome =>
    cases hc : outcome.classes with
    | nil =>
      have hpos : 1 ≤ (messages (.ok outcome)).length := List.length_pos_iff.2 (h hc)
      refine ⟨?_, ?_, ?_, ?_⟩
      · simp [stats, hc]
      · simp [stats, hc]
      · simp [stats, hc]
      · simpa [stats, hc, Stats.skipped] using hpos
    | cons c cs =>
      refine ⟨?_, ?_, ?_, ?_⟩
      · simp [stats, hc]
      · simp [stats, hc]
      · simp [stats, hc]
      · simp [stats, hc, Stats.skipped]

end FileOutcome

namespace Disk
variable (d : Disk)

def outcome (path : Bytes) : FileOutcome :=
  match d.read path with
  | .ok content => .ok (parse (Text.decode content))
  | .error e => .error (.readFile path e)

theorem isOk_outcome (path : Bytes) : (d.outcome path).isOk = (d.read path).isOk := by
  unfold outcome
  cases d.read path with
  | ok content => rfl
  | error e => rfl

theorem messages_outcome {path : Bytes} (h : (d.outcome path).classes = []) :
    (d.outcome path).messages ≠ [] := by
  unfold outcome at h ⊢
  cases hr : d.read path with
  | error e => simp [FileOutcome.messages]
  | ok content =>
    rw [hr] at h
    have hreport : (parse (Text.decode content)).advisories ≠ [] := Outcome.advisories_ne_nil h
    simpa [FileOutcome.messages] using hreport

def batch (files : List Bytes) : ScanResult :=
  .ofOutcomes (files.map fun path => (path, d.outcome path))

end Disk

theorem value_parseContent (options : ScanOptions) (origin content : String) :
    (parseContent options origin content).value = parse content := by
  unfold parseContent
  simp only [Logged.value_bind]
  split <;> rfl

theorem value_parseFile (options : ScanOptions) (d : Disk) (path : Bytes) :
    (parseFile options d path).run.value = d.outcome path := by
  unfold parseFile Disk.outcome Disk.readText
  cases d.read path with
  | error e => rfl
  | ok content =>
    dsimp only
    split
    · exact congrArg Except.ok (value_parseContent options _ _)
    · exact congrArg Except.ok (value_parseContent options _ _)

theorem value_scanFile (options : ScanOptions) (d : Disk) (path : Bytes) :
    (scanFile options d path).value = d.outcome path := by
  rw [← value_parseFile options, scanFile, Logged.value_bind]
  cases (parseFile options d path).run.value with
  | ok outcome => rfl
  | error e => rfl

theorem value_scanEach (options : ScanOptions) (d : Disk) (files : List Bytes) :
    (scanEach options d files).value = files.map fun path => (path, d.outcome path) := by
  induction files with
  | nil => rfl
  | cons path files ih =>
    rw [scanEach]
    simp only [Logged.value_bind, value_scanFile, ih, List.map_cons]
    rfl

/-- A scan gives what the files within the limit give together. -/
theorem value_scanFiles (options : ScanOptions) (d : Disk) (files : List Bytes) :
    (scanFiles options d files).value = d.batch (limitFiles options files) := by
  rw [Disk.batch, ← value_scanEach options]
  unfold scanFiles
  dsimp only
  split
  · rfl
  · rfl

namespace Disk
variable (d : Disk) (xs ys files : List Bytes)

theorem stats_batch_append :
    (d.batch (xs ++ ys)).stats = (d.batch xs).stats.merge (d.batch ys).stats := by
  simp only [batch, ScanResult.ofOutcomes, List.map_append, List.foldl_append]
  exact Stats.foldl_merge _ _

theorem stats_batch_cons (path : Bytes) :
    (d.batch (path :: files)).stats =
      ((d.outcome path).stats path).merge (d.batch files).stats := by
  rw [← List.singleton_append, stats_batch_append]
  exact congrArg (Stats.merge · _) (Stats.empty_merge _)

theorem errors_batch_append :
    (d.batch (xs ++ ys)).errors = (d.batch xs).errors ++ (d.batch ys).errors := by
  simp [batch, ScanResult.ofOutcomes]

theorem classes_batch_append :
    (d.batch (xs ++ ys)).classes = pool ((d.batch xs).classes ++ (d.batch ys).classes) := by
  simp only [batch, ScanResult.ofOutcomes, List.map_append, List.flatMap_append]
  exact Pool.pool_append _ _

theorem files_batch : (d.batch files).files = files := by
  simp [batch, ScanResult.ofOutcomes, Function.comp_def]

/-- Every error of a batch is one of a single file. -/
theorem errors_batch :
    (d.batch files).errors = files.flatMap fun path => (d.batch [path]).errors := by
  simp [batch, ScanResult.ofOutcomes, List.flatMap_map]

theorem consistent_batch : (d.batch files).stats.Consistent := by
  induction files with
  | nil => exact .empty
  | cons path files ih =>
    rw [stats_batch_cons]
    exact (FileOutcome.consistent_stats d.messages_outcome).merge ih

theorem totalFiles_batch : (d.batch files).stats.totalFiles = files.length := by
  induction files with
  | nil => rfl
  | cons path files ih =>
    rw [stats_batch_cons, Stats.merge, ih, FileOutcome.totalFiles_stats, List.length_cons]
    exact Nat.add_comm 1 _

theorem advisories_batch : (d.batch files).stats.advisories = (d.batch files).errors.length := by
  induction files with
  | nil => rfl
  | cons path files ih =>
    rw [stats_batch_cons, Stats.merge, ih, FileOutcome.advisories_stats, ← List.singleton_append,
      errors_batch_append, List.length_append]
    simp [batch, ScanResult.ofOutcomes]

theorem errorPaths_batch :
    (d.batch files).stats.errorPaths = files.filter fun path => !(d.read path).isOk := by
  induction files with
  | nil => rfl
  | cons path files ih =>
    rw [stats_batch_cons, Stats.merge, ih, FileOutcome.errorPaths_stats, isOk_outcome,
      List.filter_cons]
    cases (d.read path).isOk with
    | true => rfl
    | false => rfl

theorem classes_batch_single (path : Bytes) :
    (d.batch [path]).classes = pool (d.outcome path).classes := by
  simp [batch, ScanResult.ofOutcomes]

theorem length_classes_batch :
    (d.batch files).classes.length ≤ (d.batch files).stats.totalClasses := by
  induction files with
  | nil => exact Nat.le_refl 0
  | cons path files ih =>
    have hfirst := Pool.length_pool_le (d.outcome path).classes
    have hall := Pool.length_pool_le ((d.batch [path]).classes ++ (d.batch files).classes)
    rw [← classes_batch_append, List.length_append, classes_batch_single,
      List.singleton_append] at hall
    rw [stats_batch_cons, Stats.merge, FileOutcome.totalClasses_stats]
    dsimp only
    omega

/-- A file that gives no class gives an error. -/
theorem errors_batch_single {path : Bytes} (h : (d.batch [path]).classes = []) :
    (d.batch [path]).errors ≠ [] := by
  rw [classes_batch_single, Pool.pool_eq_nil_iff] at h
  simpa [batch, ScanResult.ofOutcomes] using d.messages_outcome h

end Disk

/-- A limit cuts the batch and nothing else; a batch is put together from any two parts of it; and
the statistics of a batch account for every file, every error and every class in it. -/
theorem scanFiles_adds_up (options : ScanOptions) (d : Disk) :
    let whole := fun files => (scanFiles { options with maxFiles := none } d files).value
    (∀ (limit : Nat) (files : List Bytes),
      (scanFiles { options with maxFiles := some limit } d files).value =
        whole (files.take limit)) ∧
    (∀ xs ys : List Bytes,
      (whole (xs ++ ys)).classes = pool ((whole xs).classes ++ (whole ys).classes) ∧
      (whole (xs ++ ys)).errors = (whole xs).errors ++ (whole ys).errors ∧
      (whole (xs ++ ys)).files = xs ++ ys ∧
      (whole (xs ++ ys)).stats = (whole xs).stats.merge (whole ys).stats) ∧
    (∀ files : List Bytes,
      let result := (scanFiles options d files).value
      let stats := result.stats
      stats.totalFiles = stats.filesWithClasses + stats.emptyFiles + stats.errorFiles ∧
      stats.totalFiles = result.files.length ∧
      stats.errorPaths = (result.files.filter fun path => !(d.read path).isOk) ∧
      stats.errorPaths.length = stats.errorFiles ∧
      stats.advisories = result.errors.length ∧
      result.classes.length ≤ stats.totalClasses ∧
      stats.filesWithClasses ≤ stats.totalClasses ∧
      (result.errors = result.files.flatMap fun path => (whole [path]).errors) ∧
      (∀ path ∈ result.files, (whole [path]).classes = [] → (whole [path]).errors ≠ []) ∧
      stats.skipped ≤ stats.advisories) := by
  intro whole
  have hwhole : whole = d.batch := by
    funext files
    exact value_scanFiles _ d files
  refine ⟨fun limit files => ?_, fun xs ys => ?_, fun files => ?_⟩
  · rw [hwhole, value_scanFiles]
    rfl
  · rw [hwhole]
    exact ⟨d.classes_batch_append xs ys, d.errors_batch_append xs ys, d.files_batch _,
      d.stats_batch_append xs ys⟩
  · intro result stats
    have hresult : result = d.batch (limitFiles options files) := value_scanFiles options d files
    generalize limitFiles options files = chosen at hresult
    have hstats : stats = (d.batch chosen).stats := congrArg ScanResult.stats hresult
    have hconsistent := d.consistent_batch chosen
    rw [hstats, hresult, hwhole, d.files_batch]
    exact ⟨hconsistent.total, d.totalFiles_batch chosen, d.errorPaths_batch chosen,
      hconsistent.paths, d.advisories_batch chosen, d.length_classes_batch chosen,
      hconsistent.classes, d.errors_batch chosen, fun path _ => d.errors_batch_single,
      hconsistent.skipped⟩

end ClassShape
