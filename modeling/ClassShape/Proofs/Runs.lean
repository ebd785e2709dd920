import ClassShape.CommandLine.Run
import ClassShape.Proofs.Batches
import ClassShape.Proofs.Conformance
import ClassShape.Proofs.Disk.Folders

/-! What a run does. It fails exactly when the settings cannot be read, an input is missing or the
output cannot be written, and then it changes no file; otherwise its exit code is the verdict on the
two sides and its report goes to one place only. What the input files hold is never a reason to
fail. -/
namespace ClassShape

namespace Step
variable {α β : Type}

def result? (x : Step α) : Option α := x.run.value.toOption

@[simp] theorem result?_pure (a : α) : (pure a : Step α).result? = some a := rfl

@[simp] theorem result?_lift (x : Logged α) : (liftM x : Step α).result? = some x.value := rfl

@[simp] theorem result?_log (level : LogLevel) (message : String) :
    (Step.log level message).result? = some () := rfl

@[simp] theorem result?_bind (x : Step α) (f : α → Step β) :
    (x >>= f).result? = x.result?.bind fun a => (f a).result? := by
  have hbind : (x >>= f).run.value = (ExceptT.bindCont f x.run.value).value := rfl
  rw [result?, result?, hbind]
  cases x.run.value with
  | ok a => rfl
  | error e => rfl

end Step

def Arguments.loaded? (readers : Readers) (a : Arguments) (d : Disk) : Option Settings :=
  match a.config with
  | none => some {}
  | some path =>
    match d.read path with
    | .ok content => readers.settings? (Text.decode content)
    | .error _ => none

def Arguments.over (a : Arguments) (s : Settings) : Settings where
  scan := { s.scan with
    maxFiles := a.maxFiles.or s.scan.maxFiles
    threads := a.threads.or s.scan.threads
    verboseErrors := s.scan.verboseErrors || a.verbosity > 0 }
  labels := ⟨a.referenceLabel.getD s.labels.reference, a.candidateLabel.getD s.labels.candidate⟩

theorem Disk.result?_readText (d : Disk) (path : Bytes) :
    (d.readText path).result? = (d.read path).toOption.map Text.decode := by
  unfold readText
  cases d.read path with
  | error e => rfl
  | ok content =>
    dsimp only
    split <;> rfl

theorem Settings.result?_load (read? : String → Option Settings) (d : Disk) (path : Bytes) :
    (Settings.load read? d path).result? =
      (d.read path).toOption.bind fun content => read? (Text.decode content) := by
  simp only [load, Step.result?_bind, Step.result?_log, Disk.result?_readText, Option.bind_some]
  cases d.read path with
  | error e => rfl
  | ok content =>
    simp only [Except.toOption, Option.map_some, Option.bind_some]
    cases read? (Text.decode content) with
    | none => rfl
    | some s => rfl

theorem Arguments.result?_settings (readers : Readers) (a : Arguments) (d : Disk) :
    (a.settings readers d).result? = (a.loaded? readers d).map a.over := by
  unfold settings loaded?
  cases a.config with
  | none => rfl
  | some path =>
    dsimp only
    rw [Step.result?_bind, Settings.result?_load]
    cases d.read path with
    | error e => rfl
    | ok content => exact (Option.map_eq_bind ..).symm

namespace Disk
variable (d : Disk)

def expand (extensions : List String) (path : Bytes) : List Bytes :=
  if d.isFolder path then d.filesBelow extensions path else [path]

def side (options : ScanOptions) (paths : List Bytes) : List ClassRecord :=
  (d.batch (limitFiles options (paths.flatMap (d.expand options.extensions)))).classes

theorem filesBelow_eq {d : Disk} {path : Bytes} {t : FileTree} (hfind : d.find path = .ok t)
    (extensions : List String) :
    d.filesBelow extensions path =
      (t.files.filter fun ns => accepts extensions (extensionBelow? path ns)).map fun ns =>
        ns.foldl Path.join path := by
  rw [filesBelow, hfind]

theorem result?_collectFolder (extensions : List String) (path : Bytes) :
    (d.collectFolder extensions path).result? = some (d.filesBelow extensions path) := rfl

/-- Paths are expanded one by one, if none is missing. -/
theorem result?_collect (extensions : List String) (paths : List Bytes) :
    (d.collect extensions paths).result? =
      if paths.all d.exists? then some (paths.flatMap (d.expand extensions)) else none := by
  induction paths with
  | nil => rfl
  | cons path paths ih =>
    rw [collect, List.all_cons, List.flatMap_cons, expand, exists?]
    cases hfolder : d.isFolder path with
    | true =>
      simp only [if_true, Step.result?_bind, result?_collectFolder, Option.bind_some, ih,
        Bool.true_or, Bool.true_and]
      split <;> rfl
    | false =>
      cases hfile : d.isFile path with
      | false => rfl
      | true =>
        simp only [if_true, Bool.false_eq_true, if_false, Step.result?_bind, Step.result?_pure,
          Option.bind_some, ih, Bool.or_true, Bool.true_and]
        split <;> rfl

theorem result?_scanPaths (options : ScanOptions) (paths : List Bytes) :
    (scanPaths options d paths).result? =
      if paths.all d.exists? then
        some (d.batch (limitFiles options (paths.flatMap (d.expand options.extensions))))
      else none := by
  rw [scanPaths, Step.result?_bind, result?_collect]
  split
  · simp [value_scanFiles]
  · rfl

theorem result?_scanSide (options : ScanOptions) (label : String) (paths : List Bytes) :
    (scanSide options d label paths).result? = (scanPaths options d paths).result? := by
  have hside : Step.result? (ExceptT.mk (inSide label <$> (scanPaths options d paths).run)) =
      (scanPaths options d paths).result? := by
    have hvalue : (inSide label <$> (scanPaths options d paths).run).value =
        inSide label (scanPaths options d paths).run.value := rfl
    rw [Step.result?, ExceptT.run_mk, hvalue, Step.result?]
    cases (scanPaths options d paths).run.value with
    | ok r => rfl
    | error e => rfl
  rw [scanSide, Step.result?_bind, hside]
  cases (scanPaths options d paths).result? with
  | none => rfl
  | some r =>
    dsimp only [Option.bind_some]
    split <;> rfl

end Disk

def Arguments.comparison (a : Arguments) (d : Disk) (s : Settings) : Report :=
  compareReport (a.over s).labels (d.side (a.over s).scan a.reference)
    (d.side (a.over s).scan a.candidate)

theorem isMatch_comparison {a : Arguments} (h : a.reference = a.candidate) (d : Disk)
    (s : Settings) : (a.comparison d s).overall = .agree := by
  have hmatch : (a.comparison d s).isMatch = true := by
    rw [Arguments.comparison, h, isMatch_compareReport_iff]
    exact Grades.refl _
  exact of_decide_eq_true hmatch

/-- The text of a report in the form that is asked for. -/
theorem Report.render_getD (r : Report) (format : Option Format) :
    r.render (format.getD .text) =
      if format = some .json then r.renderJson ++ "\n" else r.renderText := by
  cases format with
  | none => rfl
  | some f => cases f <;> rfl

namespace Arguments
variable {readers : Readers} {a : Arguments} {d : Disk}

theorem result?_report (readers : Readers) (a : Arguments) (d : Disk) :
    (a.report readers d).result? =
      if (a.reference ++ a.candidate).all d.exists? then
        (a.loaded? readers d).map (a.comparison d)
      else none := by
  rw [report, Step.result?_bind, result?_settings]
  cases a.loaded? readers d with
  | none => simp
  | some s =>
    simp only [Option.map_some, Option.bind_some, Step.result?_bind, Disk.result?_scanSide,
      Disk.result?_scanPaths, List.all_append]
    cases a.reference.all d.exists? with
    | false => rfl
    | true =>
      cases a.candidate.all d.exists? with
      | false => rfl
      | true => rfl

theorem value_run (readers : Readers) (a : Arguments) (d : Disk) :
    (a.run readers d).value =
      match (a.report readers d).result? with
      | none => ⟨2, "", d⟩
      | some report =>
        match a.output with
        | none => ⟨if report.isMatch then 0 else 1, report.render (a.format.getD .text), d⟩
        | some path =>
          match (d.writeText path (report.render (a.format.getD .text))).value with
          | ⟨d', none⟩ => ⟨if report.isMatch then 0 else 1, "", d'⟩
          | ⟨d', some _⟩ => ⟨2, "", d'⟩ := by
  rw [run, Logged.value_bind, Step.result?]
  cases (a.report readers d).run.value with
  | error e => rfl
  | ok report =>
    cases a.output with
    | none => rfl
    | some path =>
      simp only [Logged.value_bind, Except.toOption]
      cases (d.writeText path (report.render (a.format.getD .text))).value with
      | mk d' failure =>
        cases failure with
        | none => rfl
        | some e => rfl

/-- The reasons for a run to fail: the settings cannot be read, an input is neither a file nor a
folder, or the output cannot be written. -/
def Fails (readers : Readers) (a : Arguments) (d : Disk) : Prop :=
  a.loaded? readers d = none ∨
  (∃ path ∈ a.reference ++ a.candidate, d.isFile path = false ∧ d.isFolder path = false) ∨
  ∃ path ∈ a.output, ¬ d.Writable path

theorem result?_report_eq_some_iff {report : Report} :
    (a.report readers d).result? = some report ↔
      (¬ ∃ path ∈ a.reference ++ a.candidate, d.isFile path = false ∧ d.isFolder path = false) ∧
      ∃ s, a.loaded? readers d = some s ∧ a.comparison d s = report := by
  have hall : (a.reference ++ a.candidate).all d.exists? = true ↔
      ¬ ∃ path ∈ a.reference ++ a.candidate, d.isFile path = false ∧ d.isFolder path = false := by
    simp only [List.all_eq_true, Disk.exists?, not_exists, not_and, Bool.or_eq_true,
      Bool.not_eq_false]
    refine forall₂_congr fun path _ => ?_
    cases d.isFile path <;> simp
  rw [result?_report, ← hall]
  split
  · next hexist => simp [hexist, Option.map_eq_some_iff]
  · next hexist => simp [hexist]

theorem run_of_fails (h : a.Fails readers d) :
    (a.run readers d).value.exitCode = 2 ∧ (a.run readers d).value.output = "" ∧
      (a.run readers d).value.disk.contents = d.contents := by
  rw [value_run]
  cases hreport : (a.report readers d).result? with
  | none => exact ⟨rfl, rfl, rfl⟩
  | some report =>
    obtain ⟨hexist, s, hloaded, -⟩ := result?_report_eq_some_iff.1 hreport
    obtain hnone | hmissing | ⟨path, hpath, hwritable⟩ := h
    · rw [hloaded] at hnone
      cases hnone
    · exact absurd hmissing hexist
    · obtain ⟨d', e, hwrite, hcontents⟩ := Disk.value_writeText_of_not_writable hwritable
        (report.render (a.format.getD .text))
      rw [Option.mem_def.1 hpath]
      dsimp only
      rw [hwrite]
      exact ⟨rfl, rfl, hcontents⟩

theorem run_of_not_fails (h : ¬ a.Fails readers d) :
    ∃ s, a.loaded? readers d = some s ∧
      let report := a.comparison d s
      let text := if a.format = some .json then report.renderJson ++ "\n" else report.renderText
      (a.run readers d).value.exitCode = (if report.overall = .agree then 0 else 1) ∧
      (a.output = none →
        (a.run readers d).value.output = text ∧ (a.run readers d).value.disk = d) ∧
      ∀ path ∈ a.output, (a.run readers d).value.output = "" ∧
        (a.run readers d).value.disk.contents =
          Function.update d.contents (d.target path) (some (Text.encode text)) ∧
        (d.refusal .readFile (d.target path) = none →
          (a.run readers d).value.disk.read path = .ok (Text.encode text)) := by
  obtain ⟨hloaded, hrest⟩ := not_or.1 h
  obtain ⟨hexist, hwritable⟩ := not_or.1 hrest
  obtain ⟨s, hs⟩ := Option.ne_none_iff_exists'.1 hloaded
  have hreport := result?_report_eq_some_iff.2 ⟨hexist, s, hs, rfl⟩
  refine ⟨s, hs, ?_⟩
  have hcode : (if (a.comparison d s).isMatch then 0 else 1) =
      if (a.comparison d s).overall = .agree then 0 else 1 := by
    simp [Report.isMatch]
  rw [value_run, hreport]
  dsimp only
  rw [← Report.render_getD, ← hcode]
  cases houtput : a.output with
  | none => exact ⟨rfl, fun _ => ⟨rfl, rfl⟩, fun path hpath => by cases hpath⟩
  | some path =>
    have hpath : d.Writable path := by
      by_contra hnot
      exact hwritable ⟨path, houtput, hnot⟩
    obtain ⟨d', hwrite, hcontents, hread⟩ :=
      hpath.value_writeText ((a.comparison d s).render (a.format.getD .text))
    dsimp only
    rw [hwrite]
    refine ⟨rfl, ?_, ?_⟩
    · intro hnone
      cases hnone
    · intro q hq
      cases hq
      exact ⟨rfl, hcontents, hread⟩

end Arguments

/-- A run fails for its three reasons only, and then it says nothing and changes no file. Otherwise
the exit code is the verdict, and the report is all of the standard output or becomes the content of
the one file. Sides with the same paths always agree. -/
theorem run_effects (readers : Readers) (d : Disk) (args : List Bytes) (a : Arguments)
    (h : readers.request? args = some (.compare a)) :
    let r := (run readers d args).value
    (r.exitCode = 2 ↔ a.Fails readers d) ∧
    (a.Fails readers d → r.output = "" ∧ r.disk.contents = d.contents) ∧
    (¬ a.Fails readers d → ∃ s, a.loaded? readers d = some s ∧
      let report := a.comparison d s
      let text := if a.format = some .json then report.renderJson ++ "\n" else report.renderText
      r.exitCode = (if report.overall = .agree then 0 else 1) ∧
      (a.output = none → r.output = text ∧ r.disk = d) ∧
      ∀ path ∈ a.output, r.output = "" ∧
        r.disk.contents =
          Function.update d.contents (d.target path) (some (Text.encode text)) ∧
        (d.refusal .readFile (d.target path) = none →
          r.disk.read path = .ok (Text.encode text))) ∧
    (¬ a.Fails readers d → a.reference = a.candidate → r.exitCode = 0) := by
  have hr : run readers d args = a.run readers d := by
    rw [run, h]
  rw [hr]
  refine ⟨⟨?_, fun hfails => (Arguments.run_of_fails hfails).1⟩,
    fun hfails => (Arguments.run_of_fails hfails).2, Arguments.run_of_not_fails, ?_⟩
  · intro hcode
    by_contra hfails
    obtain ⟨s, -, hexit, -⟩ := Arguments.run_of_not_fails hfails
    rw [hcode] at hexit
    split at hexit <;> omega
  · intro hfails hsame
    obtain ⟨s, -, hexit, -⟩ := Arguments.run_of_not_fails hfails
    rw [hexit, isMatch_comparison hsame, if_pos rfl]

/-- A folder with a unit that is no UTF-8, has a class twice and does not close another, and with a
unit that may not be read and whose name is no UTF-8. -/
def oddEntries : List (Bytes × FileTree) :=
  [(0xE9 :: Text.encode ".java", .file (Text.encode "class Shut \x7b \x7d")),
    (Text.encode "A.java", .file (Text.encode
      "class Box \x7b \x7d class Box \x7b int n; \x7d class Open \x7b" ++ [0xFF]))]

def oddDisk : Disk where
  root := .folder [(Text.encode "work", .folder [(Text.encode "in", .folder oddEntries),
    (Text.encode "c.toml", .file (Text.encode "labels = ['solution', 'submission']"))])]
  home := [Text.encode "work"]
  refusal access place :=
    if access = .readFile ∧ place.getLast? = some (0xE9 :: Text.encode ".java") then
      some "Permission denied (os error 13)"
    else none

def oddOutput : Bytes := Text.encode "in/new/../A.java"

def oddArguments : Arguments where
  reference := [Text.encode "in"]
  candidate := [Text.encode "in"]
  config := some (Text.encode "c.toml")
  output := some oddOutput
  verbosity := 1

theorem writable_oddOutput : oddDisk.Writable oddOutput := by
  have hpieces : Path.pieces oddOutput = ["in", "new", "..", "A.java"].map Text.encode := by
    decide +kernel
  have hway : Path.way oddOutput = ["in", "new", ".."].map Text.encode := by
    rw [Path.way, hpieces]
    rfl
  have hstart : oddDisk.start oddOutput = [Text.encode "work"] := by decide +kernel
  refine ⟨⟨Text.encode "A.java", by simp [hpieces], by decide +kernel, by decide +kernel⟩,
    by decide +kernel, ?_, by decide +kernel, by decide +kernel, by decide +kernel⟩
  rw [hway, hstart]
  decide +kernel

theorem loaded?_oddArguments : oddArguments.loaded? .standard oddDisk =
    some ⟨{}, ⟨"solution", "submission"⟩⟩ := by
  decide +kernel

theorem not_fails_oddArguments : ¬ oddArguments.Fails .standard oddDisk := by
  have hfolder : oddDisk.isFolder (Text.encode "in") = true := by decide +kernel
  rw [Arguments.Fails, loaded?_oddArguments]
  simp [oddArguments, hfolder, writable_oddOutput]

theorem side_oddDisk : oddDisk.side { verboseErrors := true } [Text.encode "in"] =
    [⟨"Box", none, [⟨.default, "int", "n"⟩], []⟩] := by
  have hfind : oddDisk.find (Text.encode "in") = .ok (.folder oddEntries) := by rfl
  have hfolder : oddDisk.isFolder (Text.encode "in") = true := by decide +kernel
  have hfiles : (FileTree.folder oddEntries).files =
      [[Text.encode "A.java"], [0xE9 :: Text.encode ".java"]] := by
    simp +decide [oddEntries, FileTree.files, FileTree.entryFiles, List.mergeSort,
      List.MergeSort.Internal.splitInTwo]
  have hbelow : oddDisk.filesBelow ["java"] (Text.encode "in") =
      [Text.encode "in/A.java", Text.encode "in/" ++ 0xE9 :: Text.encode ".java"] := by
    rw [Disk.filesBelow_eq hfind, hfiles]
    decide +kernel
  have hexpand : oddDisk.expand defaultExtensions (Text.encode "in") =
      [Text.encode "in/A.java", Text.encode "in/" ++ 0xE9 :: Text.encode ".java"] := by
    rw [Disk.expand, if_pos hfolder]
    exact hbelow
  rw [Disk.side, List.flatMap_singleton, hexpand]
  decide +kernel

def oddText : String :=
  "solution vs submission: 1 classes compared, 0 differ (match)\n" ++
  "[match] Box\n  attributes:\n    [ok] default|int: 1 in both\n"

theorem renderText_oddArguments :
    (oddArguments.comparison oddDisk ⟨{}, ⟨"solution", "submission"⟩⟩).renderText = oddText := by
  rw [Arguments.comparison]
  show (compareReport ⟨"solution", "submission"⟩
    (oddDisk.side { verboseErrors := true } [Text.encode "in"])
    (oddDisk.side { verboseErrors := true } [Text.encode "in"])).renderText = oddText
  rw [side_oddDisk]
  decide +kernel

theorem run_oddArguments :
    let args := ["-r", "in", "--candidate=in", "-v", "--config", "c.toml", "-o",
      "in/new/../A.java"].map Text.encode
    let r := (run .standard oddDisk args).value
    Readers.standard.request? args = some (.compare oddArguments) ∧
    r.exitCode = 0 ∧ r.output = "" ∧
    r.disk.contents = Function.update oddDisk.contents (["work", "in", "A.java"].map Text.encode)
      (some (Text.encode oddText)) ∧
    r.disk.read oddOutput = .ok (Text.encode oddText) := by
  intro args r
  have hread : Readers.standard.request? args = some (.compare oddArguments) := by
    decide +kernel
  have htarget : oddDisk.target oddOutput = ["work", "in", "A.java"].map Text.encode := by
    decide +kernel
  obtain ⟨-, -, hdone, hsame⟩ := run_effects .standard oddDisk args oddArguments hread
  obtain ⟨s, hloaded, -, -, hwritten⟩ := hdone not_fails_oddArguments
  rw [loaded?_oddArguments] at hloaded
  cases hloaded
  obtain ⟨houtput, hcontents, hreadable⟩ := hwritten _ rfl
  rw [if_neg (by decide), renderText_oddArguments] at hcontents hreadable
  rw [htarget] at hcontents
  exact ⟨hread, hsame not_fails_oddArguments rfl, houtput, hcontents, hreadable (by decide +kernel)⟩

end ClassShape
