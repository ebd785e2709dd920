import ClassShape.Proofs.Disk.Joining
import ClassShape.Proofs.Runs
import ClassShape.Proofs.Utf8
import Mathlib.Data.List.Nodup

/-! What is collected below a folder. Each folder is only sorted for itself, by the names of its
entries, files and folders together; yet the files come out in the order of their paths as lists of
components, for what is below an entry stands between its neighbours. It is not the order of the
paths as texts. -/
namespace ClassShape

namespace Path

/-- The extension is what follows the last dot of a name, unless nothing stands before that dot. -/
def HasExtension (name ext : Bytes) : Prop :=
  ∃ stem, stem ≠ [] ∧ name = stem ++ dot :: ext ∧ dot ∉ ext

theorem takeEnd_last {stem ext : Bytes} (h : dot ∉ ext) :
    ((stem ++ dot :: ext).reverse.takeWhile (· != dot)).reverse = ext := by
  have hrun : ∀ c ∈ ext.reverse, (c != dot) = true := by
    intro c hc
    rw [bne_iff_ne]
    rintro rfl
    exact h (List.mem_reverse.1 hc)
  rw [List.reverse_append, List.reverse_cons, List.append_assoc,
    List.takeWhile_append_of_pos hrun]
  simp

theorem nameExtension?_dot (stem : Bytes) {ext : Bytes} (h : dot ∉ ext) :
    nameExtension? (stem ++ dot :: ext) = if stem = [] then none else some ext := by
  have hlength : (stem ++ dot :: ext).length - ext.length - 1 = stem.length := by
    simp only [List.length_append, List.length_cons]
    omega
  simp only [nameExtension?, takeEnd_last h, hlength, List.length_eq_zero_iff]

theorem nameExtension?_of_notMem {name : Bytes} (h : ∀ c ∈ name, (c != dot) = true) :
    nameExtension? name = none := by
  have hall : name.reverse.takeWhile (· != dot) = name.reverse :=
    List.takeWhile_eq_self_iff.2 fun c hc => h c (List.mem_reverse.1 hc)
  simp [nameExtension?, hall]

theorem nameExtension?_eq_some_iff {name ext : Bytes} :
    nameExtension? name = some ext ↔ HasExtension name ext := by
  constructor
  · intro h
    obtain hnone | ⟨stem, b, rest, rfl, hb, hrest⟩ := exists_last (· != dot) name
    · rw [nameExtension?_of_notMem hnone] at h
      cases h
    · obtain rfl : b = dot := by simpa using hb
      have hrest : dot ∉ rest := fun hmem => by simpa using hrest dot hmem
      rw [nameExtension?_dot stem hrest] at h
      split at h
      · cases h
      · next hstem =>
        cases h
        exact ⟨stem, hstem, rfl, hrest⟩
  · rintro ⟨stem, hstem, rfl, hext⟩
    rw [nameExtension?_dot stem hext, if_neg hstem]

end Path

namespace FileTree
variable {entries : List (Bytes × FileTree)} {t u : FileTree} {names : List Bytes}

/-- The entries of each folder have names that differ and that entries can have. -/
inductive WellFormed : FileTree → Prop
  | file (content : Bytes) : WellFormed (.file content)
  | folder {entries : List (Bytes × FileTree)} (distinct : (entries.map Prod.fst).Nodup)
      (names : ∀ e ∈ entries, Path.IsEntryName e.1) (below : ∀ e ∈ entries, WellFormed e.2) :
      WellFormed (.folder entries)

theorem lookup_eq_some_iff_mem (h : (entries.map Prod.fst).Nodup) {name : Bytes} :
    entries.lookup name = some t ↔ (name, t) ∈ entries := by
  rw [List.lookup_eq_some_iff]
  constructor
  · rintro ⟨before, after, rfl, -⟩
    simp
  · intro hmem
    obtain ⟨before, after, rfl⟩ := List.append_of_mem hmem
    rw [List.map_append, List.map_cons, List.nodup_append] at h
    refine ⟨before, after, rfl, fun e he => ?_⟩
    exact bne_iff_ne.2 (h.2.2 e.1 (List.mem_map_of_mem he) name List.mem_cons_self).symm

theorem get?_cons_eq_some_iff (h : (entries.map Prod.fst).Nodup) {n : Bytes} :
    (folder entries).get? (n :: names) = some u ↔ ∃ t, (n, t) ∈ entries ∧ t.get? names = some u := by
  rw [get?, Option.bind_eq_some_iff]
  simp only [lookup_eq_some_iff_mem h]

theorem WellFormed.isEntryName (h : t.WellFormed) (hget : t.get? names = some u) :
    ∀ n ∈ names, Path.IsEntryName n := by
  induction h generalizing names with
  | file content =>
    cases names with
    | nil => simp
    | cons n ns => simp [get?] at hget
  | @folder entries distinct valid below ih =>
    cases names with
    | nil => simp
    | cons n ns =>
      obtain ⟨v, hv, hget⟩ := (get?_cons_eq_some_iff distinct).1 hget
      exact List.forall_mem_cons.2 ⟨valid _ hv, ih _ hv hget⟩

theorem entryFiles_eq (entries : List (Bytes × FileTree)) :
    entryFiles entries = entries.map fun e => (e.1, e.2.files) := by
  induction entries with
  | nil => rfl
  | cons e entries ih => rw [entryFiles, ih, List.map_cons]

def sortedFiles (entries : List (Bytes × FileTree)) : List (Bytes × List (List Bytes)) :=
  (entries.map fun e => (e.1, e.2.files)).mergeSort fun a b => a.1 ≤ b.1

theorem files_folder (entries : List (Bytes × FileTree)) :
    (folder entries).files = (sortedFiles entries).flatMap fun e => e.2.map (e.1 :: ·) := by
  rw [files, entryFiles_eq]
  rfl

theorem mem_sortedFiles {e : Bytes × List (List Bytes)} :
    e ∈ sortedFiles entries ↔ ∃ t, (e.1, t) ∈ entries ∧ e.2 = t.files := by
  rw [sortedFiles, List.mem_mergeSort, List.mem_map]
  constructor
  · rintro ⟨⟨n, t⟩, hmem, rfl⟩
    exact ⟨t, hmem, rfl⟩
  · rintro ⟨t, hmem, hfiles⟩
    exact ⟨(e.1, t), hmem, by rw [← hfiles]⟩

/-- Names that differ come out in strictly increasing order. -/
theorem pairwise_sortedFiles (h : (entries.map Prod.fst).Nodup) :
    (sortedFiles entries).Pairwise fun a b => a.1 < b.1 := by
  have hsorted : (sortedFiles entries).Pairwise fun a b => a.1 ≤ b.1 := by
    refine (List.pairwise_mergeSort ?_ ?_ _).imp of_decide_eq_true
    · intro a b c hab hbc
      exact decide_eq_true (List.le_trans (of_decide_eq_true hab) (of_decide_eq_true hbc))
    · intro a b
      simpa using List.le_total a.1 b.1
  have hnames : (sortedFiles entries).Pairwise fun a b => a.1 ≠ b.1 := by
    have hperm : ((sortedFiles entries).map Prod.fst).Perm
        ((entries.map fun e => (e.1, e.2.files)).map Prod.fst) :=
      (List.mergeSort_perm _ _).map Prod.fst
    rw [List.map_map] at hperm
    exact List.pairwise_map.1 (hperm.nodup_iff.2 h)
  exact hsorted.imp₂ (fun a b hle hne => List.not_le.1 fun hge =>
    hne (List.le_antisymm hle hge)) hnames

/-- The names that lead to files are found, and no others. -/
theorem WellFormed.mem_files (h : t.WellFormed) :
    names ∈ t.files ↔ ∃ content, t.get? names = some (.file content) := by
  induction h generalizing names with
  | file content => cases names <;> simp [files, get?]
  | @folder entries distinct valid below ih =>
    rw [files_folder, List.mem_flatMap]
    cases names with
    | nil => simp [get?]
    | cons n ns =>
      constructor
      · rintro ⟨e, he, hns⟩
        obtain ⟨t, ht, hfiles⟩ := mem_sortedFiles.1 he
        obtain ⟨below, hbelow, hcons⟩ := List.mem_map.1 hns
        cases hcons
        obtain ⟨content, hget⟩ := (ih _ ht).1 (hfiles ▸ hbelow)
        exact ⟨content, (get?_cons_eq_some_iff distinct).2 ⟨t, ht, hget⟩⟩
      · rintro ⟨content, hget⟩
        obtain ⟨t, ht, hget⟩ := (get?_cons_eq_some_iff distinct).1 hget
        exact ⟨(n, t.files), mem_sortedFiles.2 ⟨t, ht, rfl⟩,
          List.mem_map_of_mem ((ih _ ht).2 ⟨content, hget⟩)⟩

/-- Files come in the order of the names that lead to them. -/
theorem WellFormed.pairwise_files (h : t.WellFormed) :
    t.files.Pairwise (· < ·) := by
  induction h with
  | file content => exact List.pairwise_singleton _ _
  | @folder entries distinct valid below ih =>
    rw [files_folder, List.pairwise_flatMap]
    constructor
    · intro e he
      obtain ⟨t, ht, hfiles⟩ := mem_sortedFiles.1 he
      rw [hfiles, List.pairwise_map]
      exact (ih _ ht).imp .cons
    · refine (pairwise_sortedFiles distinct).imp fun hlt names hnames names' hnames' => ?_
      obtain ⟨ns, -, rfl⟩ := List.mem_map.1 hnames
      obtain ⟨ns', -, rfl⟩ := List.mem_map.1 hnames'
      exact .rel hlt

def Wanted (t : FileTree) (extensions : List String) (names : List Bytes) : Prop :=
  (∃ content, t.get? names = some (.file content)) ∧
  ∃ name ∈ names.getLast?, ∃ ext, Path.HasExtension name ext ∧
    ∃ e ∈ extensions, lowerAscii (Text.encode e) = lowerAscii ext

/-- An extension that is like one of those given is a text as they are. -/
theorem accepts_some_iff {extensions : List String} {ext : Bytes} :
    accepts extensions (some ext) = true ↔
      ∃ e ∈ extensions, lowerAscii (Text.encode e) = lowerAscii ext := by
  simp only [accepts, Bool.and_eq_true, List.any_eq_true, decide_eq_true_iff, and_iff_right_iff_imp]
  rintro ⟨e, -, he⟩
  rw [← Text.isUtf8_lowerAscii, ← he, Text.isUtf8_lowerAscii]
  exact Text.isUtf8_encode e

theorem mem_filter_files (h : (folder entries).WellFormed) (extensions : List String)
    (path : Bytes) :
    names ∈ (folder entries).files.filter (fun ns => accepts extensions (extensionBelow? path ns)) ↔
      (folder entries).Wanted extensions names := by
  rw [List.mem_filter, h.mem_files, Wanted]
  refine and_congr_right ?_
  rintro ⟨content, hget⟩
  cases hlast : names.getLast? with
  | none =>
    rw [List.getLast?_eq_none_iff.1 hlast, get?] at hget
    cases hget
  | some name =>
    rw [extensionBelow?, hlast]
    cases hext : Path.nameExtension? name with
    | none => simp [accepts, ← Path.nameExtension?_eq_some_iff, hext]
    | some ext => simp [accepts_some_iff, ← Path.nameExtension?_eq_some_iff, hext]

end FileTree

namespace Disk
open ClassShape.Path
variable {d : Disk} {path : Bytes} {t u : FileTree} {names : List Bytes}

theorem find_foldl_join (hfind : d.find path = .ok t) (ht : t.WellFormed)
    (hget : t.get? names = some u) : d.find (names.foldl join path) = .ok u := by
  induction names generalizing path t with
  | nil =>
    rw [FileTree.get?] at hget
    cases hget
    exact hfind
  | cons n ns ih =>
    cases ht with
    | file content => simp [FileTree.get?] at hget
    | folder distinct valid below =>
      obtain ⟨v, hv, hget⟩ := (FileTree.get?_cons_eq_some_iff distinct).1 hget
      have hlookup := (FileTree.lookup_eq_some_iff_mem distinct).2 hv
      exact ih (find_join hfind (valid _ hv) hlookup) (below _ hv) hget

/-- What is collected comes in the order of the paths. -/
theorem pairwise_filesBelow (hfind : d.find path = .ok t) (ht : t.WellFormed)
    (extensions : List String) : (d.filesBelow extensions path).Pairwise Before := by
  have hpath : path ≠ [] := (find_eq_ok_iff.1 hfind).1
  have hcomponents : ∀ ns ∈ t.files.filter fun ns => accepts extensions (extensionBelow? path ns),
      components (ns.foldl join path) = components path ++ ns := by
    intro ns hns
    obtain ⟨content, hget⟩ := ht.mem_files.1 (List.mem_filter.1 hns).1
    exact components_foldl_join hpath (ht.isEntryName hget)
  rw [filesBelow_eq hfind, List.pairwise_map]
  refine (ht.pairwise_files.filter _).imp_of_mem fun {ns ns'} hns hns' hlex => ?_
  rw [Before, hcomponents ns hns, hcomponents ns' hns']
  exact hlex.append_left _ _

/-- Each folder gives the files below it that have one of the extensions, all of them and each
once, in the order of their paths. Several paths give what each of them gives, one after another,
and a file that is named itself gives itself; they fail if one of them leads nowhere. -/
theorem collect_in_order (d : Disk) (extensions : List String) :
    (∀ path entries, d.find path = .ok (.folder entries) →
      (FileTree.folder entries).WellFormed →
      ∃ files, (d.collectFolder extensions path).result? = some files ∧
        (∀ file, file ∈ files ↔ ∃ names, (FileTree.folder entries).Wanted extensions names ∧
          file = names.foldl join path) ∧
        (∀ file ∈ files, d.isFile file = true) ∧ files.Nodup ∧ files.Pairwise Before) ∧
    ∀ paths,
      ((d.collect extensions paths).result? = none ↔
        ∃ path ∈ paths, d.isFile path = false ∧ d.isFolder path = false) ∧
      ∀ files, (d.collect extensions paths).result? = some files →
        ∃ parts, files = parts.flatten ∧
          List.Forall₂ (fun path part =>
            if d.isFolder path then (d.collectFolder extensions path).result? = some part
            else part = [path]) paths parts := by
  constructor
  · intro path entries hfind hentries
    have hmem : ∀ file, file ∈ d.filesBelow extensions path ↔
        ∃ names, (FileTree.folder entries).Wanted extensions names ∧
          file = names.foldl join path := by
      intro file
      simp only [filesBelow_eq hfind, List.mem_map, FileTree.mem_filter_files hentries, eq_comm]
    have hsorted := pairwise_filesBelow hfind hentries extensions
    refine ⟨d.filesBelow extensions path, d.result?_collectFolder extensions path, hmem, ?_,
      nodup_of_pairwise_before hsorted, hsorted⟩
    intro file hfile
    obtain ⟨names, ⟨⟨content, hget⟩, -⟩, rfl⟩ := (hmem file).1 hfile
    rw [isFile, find_foldl_join hfind hentries hget]
    rfl
  · intro paths
    rw [d.result?_collect]
    constructor
    · simp [exists?, and_comm]
    · intro files hfiles
      split at hfiles
      · cases hfiles
        refine ⟨paths.map (d.expand extensions), rfl, ?_⟩
        rw [List.forall₂_map_right_iff, List.forall₂_same]
        intro path _
        rw [expand]
        split
        · exact d.result?_collectFolder extensions path
        · rfl
      · cases hfiles

/-- A file and a folder whose names start alike, and a file whose name is no UTF-8. -/
def twinEntries : List (Bytes × FileTree) :=
  [(Text.encode "a.java", .file []), (Text.encode ".java", .file []),
    (Text.encode "a", .folder [(0xFF :: Text.encode ".txt", .file []),
      (0xE9 :: Text.encode "x.JAVA", .file [])])]

def twinDisk : Disk where
  root := .folder [(Text.encode "src", .folder twinEntries)]
  home := []

theorem wellFormed_twinEntries : (FileTree.folder twinEntries).WellFormed := by
  refine .folder (by decide +kernel) (by decide +kernel) ?_
  simp only [twinEntries, List.forall_mem_cons]
  refine ⟨.file _, .file _, .folder (by decide +kernel) (by decide +kernel) ?_, by simp⟩
  simp only [List.forall_mem_cons]
  exact ⟨.file _, .file _, by simp⟩

theorem files_twinEntries : (FileTree.folder twinEntries).files =
    [[Text.encode ".java"], [Text.encode "a", 0xE9 :: Text.encode "x.JAVA"],
      [Text.encode "a", 0xFF :: Text.encode ".txt"], [Text.encode "a.java"]] := by
  simp +decide [twinEntries, FileTree.files, FileTree.entryFiles, List.mergeSort,
    List.MergeSort.Internal.splitInTwo]

/-- The folder's files come first, though a dot is less than a slash. -/
theorem collect_twinDisk :
    let deep := Text.encode "src/a/" ++ 0xE9 :: Text.encode "x.JAVA"
    let flat := Text.encode "src/a.java"
    twinDisk.find (Text.encode "src/") = .ok (.folder twinEntries) ∧
    (FileTree.folder twinEntries).WellFormed ∧
    (twinDisk.collectFolder ["java"] (Text.encode "src/")).result? = some [deep, flat] ∧
    Before deep flat ∧
    (twinDisk.collect ["java"] [Text.encode "src/.java", Text.encode "src/b"]).result? = none := by
  intro deep flat
  have hfind : twinDisk.find (Text.encode "src/") = .ok (.folder twinEntries) := by rfl
  obtain ⟨hfolders, hpaths⟩ := collect_in_order twinDisk ["java"]
  obtain ⟨files, hfiles, -, -, -, hsorted⟩ := hfolders (Text.encode "src/") twinEntries hfind
    wellFormed_twinEntries
  have hlist : (twinDisk.collectFolder ["java"] (Text.encode "src/")).result? =
      some [deep, flat] := by
    rw [result?_collectFolder, filesBelow_eq hfind, files_twinEntries]
    decide +kernel
  rw [hlist] at hfiles
  cases hfiles
  refine ⟨hfind, wellFormed_twinEntries, hlist, (List.pairwise_cons.1 hsorted).1 _ (by simp), ?_⟩
  exact (hpaths [Text.encode "src/.java", Text.encode "src/b"]).1.2
    ⟨Text.encode "src/b", by simp, by decide +kernel, by decide +kernel⟩

end Disk
end ClassShape
