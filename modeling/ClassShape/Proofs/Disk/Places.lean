import ClassShape.Disk.Basic
import ClassShape.Proofs.Disk.Paths
import Mathlib.Logic.Function.Basic

/-! Places on a disk. A place is a list of names from the root down. What stands there is all that a
path can tell about a disk, and a change to a disk is a change at one place. A path goes from place
to place; the system follows it if it goes through folders only. -/
namespace ClassShape

inductive Kind where
  | file (content : Bytes)
  | folder
deriving DecidableEq

namespace FileTree

def kind : FileTree → Kind
  | file content => .file content
  | folder _ => .folder

def kind? (t : FileTree) (place : List Bytes) : Option Kind := (t.get? place).map kind

@[simp] theorem kind_folder (entries : List (Bytes × FileTree)) :
    (folder entries).kind = .folder := rfl

@[simp] theorem kind?_nil (t : FileTree) : t.kind? [] = some t.kind := by
  rw [kind?, get?, Option.map_some]

@[simp] theorem kind?_file_cons (content : Bytes) (n : Bytes) (ns : List Bytes) :
    (file content).kind? (n :: ns) = none := by
  rw [kind?, get?, Option.map_none]

@[simp] theorem kind?_folder_cons (entries : List (Bytes × FileTree)) (n : Bytes)
    (ns : List Bytes) :
    (folder entries).kind? (n :: ns) = (entries.lookup n).bind fun t => t.kind? ns := by
  rw [kind?, get?, Option.map_bind]
  rfl

/-- What holds a thing is a folder. -/
theorem kind?_dropLast {t : FileTree} {place : List Bytes} (h : t.kind? place = some .folder) :
    t.kind? place.dropLast = some .folder := by
  induction place generalizing t with
  | nil => exact h
  | cons n ns ih =>
    cases t with
    | file content => simp at h
    | folder entries =>
      cases ns with
      | nil => rfl
      | cons m ns =>
        rw [kind?_folder_cons] at h
        obtain ⟨u, hu, hfolder⟩ := Option.bind_eq_some_iff.1 h
        rw [List.dropLast_cons_cons, kind?_folder_cons, hu]
        exact ih hfolder

theorem lookup_replace (entries : List (Bytes × FileTree)) (name n : Bytes) (new : FileTree) :
    (entries.map fun e => if e.1 = name then (name, new) else e).lookup n =
      if n = name then (entries.lookup name).map fun _ => new else entries.lookup n := by
  induction entries with
  | nil => simp
  | cons e entries ih =>
    obtain ⟨k, t⟩ := e
    by_cases hn : n = name
    · subst hn
      by_cases hk : k = n
      · simp [hk]
      · have hne : (n == k) = false := by simpa using Ne.symm hk
        simpa [hk, hne, List.lookup_cons] using ih
    · by_cases hk : k = name
      · have hne : (n == name) = false := by simpa using hn
        simp [hk, hn, hne, List.lookup_cons, ih]
      · simp [hk, hn, List.lookup_cons, ih]

theorem kind?_put_cons {entries : List (Bytes × FileTree)} {name : Bytes} {t : FileTree}
    (h : entries.lookup name = some t) (names : List Bytes) (new : FileTree) (n : Bytes)
    (ns : List Bytes) :
    ((folder entries).put (name :: names) new).kind? (n :: ns) =
      if n = name then (t.put names new).kind? ns else (folder entries).kind? (n :: ns) := by
  rw [put, h, kind?_folder_cons, lookup_replace, h]
  by_cases hn : n = name
  · simp [hn]
  · simp [hn]

theorem kind?_put_singleton (entries : List (Bytes × FileTree)) (name : Bytes) (new : FileTree)
    (n : Bytes) (ns : List Bytes) :
    ((folder entries).put [name] new).kind? (n :: ns) =
      if n = name then new.kind? ns else (folder entries).kind? (n :: ns) := by
  cases h : entries.lookup name with
  | some t => exact kind?_put_cons h [] new n ns
  | none =>
    rw [put, h, List.isEmpty_nil, if_pos rfl, kind?_folder_cons, List.lookup_append]
    by_cases hn : n = name
    · simp [hn, h]
    · have hne : (n == name) = false := by simpa using hn
      simp [hn, hne, List.lookup_cons]

@[simp] theorem kind_put_cons (entries : List (Bytes × FileTree)) (name : Bytes)
    (names : List Bytes) (new : FileTree) :
    ((folder entries).put (name :: names) new).kind = .folder := by
  unfold put
  split
  · rfl
  · split <;> rfl

/-- A leaf that is put into a folder stands there, where no folder was before, and nothing else has
changed. -/
theorem kind?_put {t leaf : FileTree} {here : List Bytes} {name : Bytes}
    (hhere : t.kind? here = some .folder) (hname : t.kind? (here ++ [name]) ≠ some .folder)
    (hleaf : ∀ n ns, leaf.kind? (n :: ns) = none) :
    (t.put (here ++ [name]) leaf).kind? =
      Function.update t.kind? (here ++ [name]) (some leaf.kind) := by
  funext place
  rw [Function.update_apply]
  induction here generalizing t place with
  | nil =>
    cases t with
    | file content => cases hhere
    | folder entries =>
      cases place with
      | nil => simp
      | cons n ns =>
        rw [List.nil_append, kind?_put_singleton]
        by_cases hn : n = name
        · cases ns with
          | nil => simp [hn]
          | cons m ns =>
            -- what was there before is a file, if anything, with nothing below it
            cases hu : entries.lookup name with
            | none => simp [hn, hu, hleaf]
            | some u =>
              cases u with
              | file content => simp [hn, hu, hleaf]
              | folder below => simp [hu] at hname
        · simp [hn]
  | cons m here ih =>
    cases t with
    | file content => simp at hhere
    | folder entries =>
      rw [kind?_folder_cons] at hhere
      obtain ⟨u, hu, hhere⟩ := Option.bind_eq_some_iff.1 hhere
      rw [List.cons_append, kind?_folder_cons, hu] at hname
      cases place with
      | nil => simp
      | cons n ns =>
        rw [List.cons_append, kind?_put_cons hu, ih hhere hname]
        by_cases hn : n = m
        · simp [hn, hu]
        · simp [hn]

end FileTree

namespace Disk
open ClassShape.Path
variable {d d' : Disk} {here ps qs place : List Bytes} {path : Bytes}

def kind? (d : Disk) (place : List Bytes) : Option Kind := d.root.kind? place

theorem kind?_eq_folder :
    d.kind? place = some .folder ↔ ∃ entries, d.root.get? place = some (.folder entries) := by
  rw [kind?, FileTree.kind?]
  cases d.root.get? place with
  | none => simp
  | some t => cases t <;> simp [FileTree.kind]

theorem kind?_eq_file {content : Bytes} :
    d.kind? place = some (.file content) ↔ d.root.get? place = some (.file content) := by
  rw [kind?, FileTree.kind?]
  cases d.root.get? place with
  | none => simp
  | some t => cases t <;> simp [FileTree.kind]

theorem isSome_get? : (d.root.get? place).isSome = (d.kind? place).isSome := by
  rw [kind?, FileTree.kind?, Option.isSome_map]

def Through (d : Disk) (here ps : List Bytes) : Prop :=
  ∀ x ∈ trail here ps, d.kind? x = some .folder

def Makeable (d : Disk) (place : List Bytes) : Prop :=
  d.kind? place = some .folder ∨ d.kind? place = none ∧ d.refusal .makeFolder place = none

instance (d : Disk) (place : List Bytes) : Decidable (d.Makeable place) :=
  inferInstanceAs (Decidable (_ ∨ _ ∧ _))

/-- Pieces start at a folder, and go on through folders that are there or may be made. -/
structure Passable (d : Disk) (here ps : List Bytes) : Prop where
  start : d.kind? here = some .folder
  clear : ∀ x ∈ trail here ps, d.Makeable x

theorem Makeable.ne_file {content : Bytes} (h : d.Makeable place) :
    d.kind? place ≠ some (.file content) := by
  intro hfile
  obtain hfolder | ⟨hnone, -⟩ := h
  · simp [hfile] at hfolder
  · simp [hfile] at hnone

theorem through_nil : d.Through here [] ↔ d.kind? here = some .folder :=
  List.forall_mem_singleton

theorem through_cons {p : Bytes} :
    d.Through here (p :: ps) ↔ d.kind? here = some .folder ∧ d.Through (step here p) ps :=
  List.forall_mem_cons

theorem through_concat {p : Bytes} :
    d.Through here (ps ++ [p]) ↔
      d.Through here ps ∧ d.kind? (walk here (ps ++ [p])) = some .folder := by
  simp only [Through, mem_trail_concat, or_imp, forall_and, forall_eq]

theorem Through.start (h : d.Through here ps) : d.kind? here = some .folder :=
  h here (start_mem_trail here ps)

theorem Through.last (h : d.Through here ps) : d.kind? (walk here ps) = some .folder :=
  h _ (walk_mem_trail here ps)

/-- Only the places count, not the pieces. -/
theorem through_congr (h : ∀ x, x ∈ trail here ps ↔ x ∈ trail here qs) :
    d.Through here ps ↔ d.Through here qs := by
  simp only [Through, h]

theorem passable_congr (h : ∀ x, x ∈ trail here ps ↔ x ∈ trail here qs) :
    d.Passable here ps ↔ d.Passable here qs := by
  constructor
  · exact fun hps => ⟨hps.start, fun x hx => hps.clear x ((h x).2 hx)⟩
  · exact fun hqs => ⟨hqs.start, fun x hx => hqs.clear x ((h x).1 hx)⟩

theorem Passable.of_concat {p : Bytes} (h : d.Passable here (ps ++ [p])) : d.Passable here ps :=
  ⟨h.start, fun x hx => h.clear x (mem_trail_concat.2 (.inl hx))⟩

/-- From a folder a piece leads on to what is there. -/
theorem follow_cons (h : d.kind? here = some .folder) (p : Bytes) (ps : List Bytes) :
    d.follow here (p :: ps) =
      if (d.kind? (step here p)).isSome then d.follow (step here p) ps else .error .notFound := by
  obtain ⟨entries, hget⟩ := kind?_eq_folder.1 h
  rw [follow, hget, step]
  by_cases hfiller : isFiller p
  · simp [hfiller, h]
  · by_cases hup : p = up
    · have hparent : d.kind? here.dropLast = some .folder := FileTree.kind?_dropLast h
      simp [hup, hparent, show isFiller up = false from rfl]
    · simp [hfiller, hup, isSome_get?]

/-- A path does not go on from what is no folder. -/
theorem kind?_of_follow_cons {p : Bytes} (h : d.follow here (p :: ps) = .ok place) :
    d.kind? here = some .folder := by
  rw [follow] at h
  split at h
  · next entries hget => exact kind?_eq_folder.2 ⟨entries, hget⟩
  · cases h
  · cases h

theorem eq_walk_of_follow (h : d.follow here ps = .ok place) : place = walk here ps := by
  induction ps generalizing here with
  | nil => exact (Except.ok.inj h).symm
  | cons p ps ih =>
    rw [follow_cons (kind?_of_follow_cons h)] at h
    split at h
    · exact ih h
    · cases h

/-- A path that leads to a folder goes through folders. -/
theorem through_of_follow (h : d.follow here ps = .ok place)
    (hplace : d.kind? place = some .folder) : d.Through here ps := by
  induction ps generalizing here with
  | nil =>
    cases h
    exact through_nil.2 hplace
  | cons p ps ih =>
    have hhere := kind?_of_follow_cons h
    rw [follow_cons hhere] at h
    split at h
    · exact through_cons.2 ⟨hhere, ih h⟩
    · cases h

/-- A path through folders leads to what is there. -/
theorem Through.follow_eq (h : d.Through here ps) : d.follow here ps = .ok (walk here ps) := by
  induction ps generalizing here with
  | nil => rfl
  | cons p ps ih =>
    obtain ⟨hhere, hrest⟩ := through_cons.1 h
    rw [follow_cons hhere, hrest.start, ih hrest]
    rfl

theorem Through.follow_concat {p : Bytes} (h : d.Through here ps)
    (hlast : (d.kind? (walk here (ps ++ [p]))).isSome) :
    d.follow here (ps ++ [p]) = .ok (walk here (ps ++ [p])) := by
  induction ps generalizing here with
  | nil =>
    rw [List.nil_append, follow_cons h.start]
    exact if_pos hlast
  | cons q ps ih =>
    obtain ⟨hhere, hrest⟩ := through_cons.1 h
    rw [List.cons_append, follow_cons hhere, hrest.start]
    exact ih hrest hlast

/-- A path that meets no file goes through folders or comes to where nothing is. -/
theorem Passable.through_or_notFound (h : d.Passable here ps) :
    d.Through here ps ∨ d.follow here ps = .error .notFound := by
  induction ps generalizing here with
  | nil => exact .inl (through_nil.2 h.start)
  | cons p ps ih =>
    have hrest := (List.forall_mem_cons.1 h.clear).2
    rw [follow_cons h.start]
    cases hnext : d.kind? (step here p) with
    | none => exact .inr rfl
    | some k =>
      cases k with
      | file content => exact absurd hnext (hrest _ (start_mem_trail _ ps)).ne_file
      | folder =>
        exact (ih ⟨hnext, hrest⟩).imp_left fun hthrough => through_cons.2 ⟨h.start, hthrough⟩

def target (d : Disk) (path : Bytes) : List Bytes := walk (d.start path) (pieces path)

theorem locate_eq_ok_iff :
    d.locate path = .ok place ↔ path ≠ [] ∧
      d.follow (d.start path) (pieces path) = .ok (d.target path) ∧ place = d.target path := by
  rw [locate]
  split
  · next hpath => simp [hpath]
  · next hpath =>
    constructor
    · intro h
      obtain rfl : place = d.target path := eq_walk_of_follow h
      exact ⟨hpath, h, rfl⟩
    · rintro ⟨-, h, rfl⟩
      exact h

theorem find_eq_ok_iff {t : FileTree} :
    d.find path = .ok t ↔ path ≠ [] ∧ d.follow (d.start path) (pieces path) = .ok (d.target path) ∧
      d.root.get? (d.target path) = some t := by
  have hfind : d.find path = .ok t ↔
      ∃ here, d.locate path = .ok here ∧ d.root.get? here = some t := by
    unfold find
    cases d.locate path with
    | error e => simp [bind, Except.bind]
    | ok here =>
      cases hget : d.root.get? here with
      | none => simp [hget, bind, Except.bind, throw, throwThe, MonadExceptOf.throw]
      | some u => simp [hget, bind, Except.bind, pure, Except.pure]
  rw [hfind]
  constructor
  · rintro ⟨here, hlocate, hget⟩
    obtain ⟨hpath, hfollow, rfl⟩ := locate_eq_ok_iff.1 hlocate
    exact ⟨hpath, hfollow, hget⟩
  · rintro ⟨hpath, hfollow, hget⟩
    exact ⟨d.target path, locate_eq_ok_iff.2 ⟨hpath, hfollow, rfl⟩, hget⟩

theorem isFolder_iff :
    d.isFolder path = true ↔
      path ≠ [] ∧ d.Through (d.start path) (pieces path) := by
  constructor
  · intro h
    unfold isFolder at h
    split at h
    · next t hfind =>
      obtain ⟨hpath, hfollow, hget⟩ := find_eq_ok_iff.1 hfind
      cases t with
      | file content => cases h
      | folder entries =>
        exact ⟨hpath, through_of_follow hfollow (kind?_eq_folder.2 ⟨entries, hget⟩)⟩
    · cases h
  · rintro ⟨hpath, hthrough⟩
    obtain ⟨entries, hget⟩ := kind?_eq_folder.1 hthrough.last
    have hfind := find_eq_ok_iff.2 ⟨hpath, hthrough.follow_eq, hget⟩
    rw [isFolder, hfind]
    rfl

theorem kind?_of_isFile (h : d.isFile path = true) :
    ∃ content, d.kind? (d.target path) = some (.file content) := by
  unfold isFile at h
  split at h
  · next t hfind =>
    obtain ⟨-, -, hget⟩ := find_eq_ok_iff.1 hfind
    cases t with
    | file content => exact ⟨content, kind?_eq_file.2 hget⟩
    | folder entries => cases h
  · cases h

theorem place_blanks (hpath : path ≠ []) (h : ∀ p ∈ pieces path, (p == []) = true) :
    d.place path = .ok none := by
  have hnamed : ((pieces path).reverse.dropWhile (· == [])).reverse = [] := dropEnd_all h
  unfold place
  simp only [hnamed, if_neg hpath]
  rfl

theorem place_eq {name : Bytes} {blanks : List Bytes} (d : Disk)
    (hpieces : pieces path = ps ++ name :: blanks) (hname : (name == []) = false)
    (hblanks : ∀ b ∈ blanks, (b == []) = true) :
    d.place path = (d.follow (d.start path) ps).bind fun here =>
      if d.kind? here = some .folder then
        .ok (if name = [dot] ∨ name = up then none else some (here, name, !blanks.isEmpty))
      else .error .notFolder := by
  have hpath := ne_empty_of_pieces hpieces hname
  have hnamed : ((ps ++ name :: blanks).reverse.dropWhile (· == [])).reverse = ps ++ [name] :=
    dropEnd_last hname hblanks
  have hslash : decide ((ps ++ [name]).length < (ps ++ name :: blanks).length) =
      !blanks.isEmpty := by
    cases blanks <;> simp
  unfold place
  simp only [hpieces, hnamed, if_neg hpath, List.getLast?_concat, List.dropLast_concat, hslash]
  refine bind_congr fun here => ?_
  by_cases hhere : d.kind? here = some .folder
  · obtain ⟨entries, hget⟩ := kind?_eq_folder.1 hhere
    rw [if_pos hhere, hget]
    exact (apply_ite Except.ok _ _ _).symm
  · rw [if_neg hhere]
    split
    · next entries hget => exact absurd (kind?_eq_folder.2 ⟨entries, hget⟩) hhere
    · rfl

/-- A new thing stands in a folder that the path has been followed to. -/
theorem of_place_eq_some {name : Bytes} {slash : Bool}
    (h : d.place path = .ok (some (here, name, slash))) :
    ∃ ps blanks, pieces path = ps ++ name :: blanks ∧ slash = !blanks.isEmpty ∧
      isFiller name = false ∧ name ≠ up ∧ here = walk (d.start path) ps ∧
      d.Through (d.start path) ps := by
  by_cases hpath : path = []
  · simp [place, hpath, bind, Except.bind, throw, throwThe, MonadExceptOf.throw] at h
  obtain hblank | ⟨ps, n, blanks, hpieces, hn, hblanks⟩ := exists_last (· == []) (pieces path)
  · rw [place_blanks hpath hblank] at h
    cases h
  rw [place_eq d hpieces hn hblanks] at h
  cases hfollow : d.follow (d.start path) ps with
  | error e => simp [hfollow, Except.bind] at h
  | ok there =>
    simp only [hfollow, Except.bind] at h
    split at h
    · next hfolder =>
      split at h
      · cases h
      · next hdots =>
        cases h
        refine ⟨ps, blanks, hpieces, rfl, ?_, fun h => hdots (.inr h), eq_walk_of_follow hfollow,
          through_of_follow hfollow hfolder⟩
        simp only [isFiller, hn, Bool.false_or, beq_eq_false_iff_ne]
        exact fun h => hdots (.inl h)
    · cases h

theorem exists_place {f : Option (List Bytes × Bytes × Bool) → Except OsError Disk}
    {e : OsError} (hnone : f none = .error e) (h : (d.place path).bind f = .ok d') :
    ∃ here name slash, d.place path = .ok (some (here, name, slash)) ∧
      f (some (here, name, slash)) = .ok d' := by
  cases hplace : d.place path with
  | error e => simp [hplace, Except.bind] at h
  | ok found =>
    rw [hplace, Except.bind] at h
    cases found with
    | none => simp [hnone] at h
    | some found => exact ⟨found.1, found.2.1, found.2.2, rfl, h⟩

theorem target_eq {name : Bytes} (hpieces : pieces path = ps ++ [name])
    (hfiller : isFiller name = false) (hdots : name ≠ up) (d : Disk) :
    d.target path = walk (d.start path) ps ++ [name] := by
  rw [target, hpieces, walk_name hfiller hdots]

theorem permit_eq_ok {access : Access} (h : d.refusal access place = none) :
    d.permit access place = .ok () := by
  rw [permit, h]

theorem refusal_of_permit {access : Access} {α : Type} {f : Unit → Except OsError α} {a : α}
    (h : (d.permit access place).bind f = .ok a) : d.refusal access place = none ∧ f () = .ok a := by
  rw [permit] at h
  split at h
  · cases h
  · next hnone => exact ⟨hnone, h⟩

theorem write_eq (d : Disk) (path content : Bytes) :
    d.write path content = (d.place path).bind fun
      | none => .error .isFolder
      | some (here, name, slash) =>
        if slash ∨ d.kind? (here ++ [name]) = some .folder then .error .isFolder
        else (d.permit .writeFile (here ++ [name])).bind fun _ =>
          .ok { d with root := d.root.put (here ++ [name]) (.file content) } := by
  unfold write
  refine bind_congr fun found => ?_
  cases found with
  | none => rfl
  | some found =>
    obtain ⟨here, name, slash⟩ := found
    cases slash with
    | true => rfl
    | false =>
      by_cases hfolder : d.kind? (here ++ [name]) = some .folder
      · obtain ⟨entries, hget⟩ := kind?_eq_folder.1 hfolder
        simp only [hget, hfolder, or_true, if_true]
        rfl
      · have hget : ∀ entries, d.root.get? (here ++ [name]) ≠ some (.folder entries) :=
          fun entries hget => hfolder (kind?_eq_folder.2 ⟨entries, hget⟩)
        simp only [hfolder, or_false, Bool.false_eq_true, if_false]
        rfl

theorem makeFolder_eq (d : Disk) (path : Bytes) :
    d.makeFolder path = (d.place path).bind fun
      | none => .error .occupied
      | some (here, name, _) =>
        if (d.kind? (here ++ [name])).isSome then .error .occupied
        else (d.permit .makeFolder (here ++ [name])).bind fun _ =>
          .ok { d with root := d.root.put (here ++ [name]) (.folder []) } := by
  unfold makeFolder
  refine bind_congr fun found => ?_
  cases found with
  | none => rfl
  | some found =>
    obtain ⟨here, name, slash⟩ := found
    dsimp only
    rw [← isSome_get?]
    cases d.root.get? (here ++ [name]) with
    | none => rfl
    | some t => rfl

/-- Where a file may be written: in a folder that the path goes to through folders, not over a
folder, and if the system does not refuse. -/
structure Ready (d : Disk) (path : Bytes) : Prop where
  name : EndsInName path
  folders : ∀ x ∈ trail (d.start path) (way path), d.kind? x = some .folder
  free : d.kind? (d.target path) ≠ some .folder
  permitted : d.refusal .writeFile (d.target path) = none

theorem Ready.through (h : d.Ready path) : d.Through (d.start path) (way path) :=
  h.folders

theorem Ready.write_eq (h : d.Ready path) (content : Bytes) :
    d.write path content =
      .ok { d with root := d.root.put (d.target path) (.file content) } := by
  obtain ⟨name, hpieces, hfiller, hdots⟩ := h.name.exists_pieces
  obtain ⟨hblank, hdot⟩ := Bool.or_eq_false_iff.1 hfiller
  have hne : name ≠ [dot] := by simpa using hdot
  have hfree := h.free
  have hpermit := permit_eq_ok h.permitted
  rw [target_eq hpieces hfiller hdots] at hfree hpermit ⊢
  rw [Disk.write_eq, place_eq d hpieces hblank (by simp), h.through.follow_eq]
  simp [Except.bind, h.through.last, hne, hdots, hfree, hpermit]

theorem ready_of_write {content : Bytes} (h : d.write path content = .ok d') : d.Ready path := by
  rw [write_eq] at h
  obtain ⟨here, name, slash, hplace, h⟩ := exists_place rfl h
  obtain ⟨ps, blanks, hpieces, rfl, hfiller, hdots, rfl, hthrough⟩ := of_place_eq_some hplace
  dsimp only at h
  split at h
  · cases h
  · next hnot =>
    obtain ⟨hblanks, hfree⟩ := not_or.1 hnot
    have hnil : blanks = [] := by simpa using hblanks
    subst hnil
    have hway : way path = ps := by rw [way, hpieces, List.dropLast_concat]
    have htarget := target_eq hpieces hfiller hdots d
    rw [← htarget] at hfree h
    exact ⟨⟨name, by simp [hpieces], hfiller, hdots⟩, by rwa [hway], hfree,
      (refusal_of_permit h).1⟩

/-- A file that is written stands where the path leads, and nothing else has changed. -/
theorem Ready.kind?_put (h : d.Ready path) (content : Bytes) :
    ({ d with root := d.root.put (d.target path) (.file content) } : Disk).kind? =
      Function.update d.kind? (d.target path) (some (.file content)) := by
  obtain ⟨name, hpieces, hfiller, hdots⟩ := h.name.exists_pieces
  have hfree := h.free
  rw [target_eq hpieces hfiller hdots] at hfree ⊢
  exact FileTree.kind?_put h.through.last hfree (FileTree.kind?_file_cons content)

/-- A file that a path goes to through folders is read, unless the system refuses. -/
theorem read_of_through {content : Bytes} (hname : EndsInName path)
    (hthrough : d.Through (d.start path) (way path))
    (hfile : d.kind? (d.target path) = some (.file content))
    (hpermitted : d.refusal .readFile (d.target path) = none) : d.read path = .ok content := by
  obtain ⟨name, hpieces, -, -⟩ := hname.exists_pieces
  have htarget : d.target path = walk (d.start path) (way path ++ [name]) := by
    rw [target, hpieces]
  have hlocate : d.locate path = .ok (d.target path) := by
    refine locate_eq_ok_iff.2 ⟨hname.ne_empty, ?_, rfl⟩
    rw [htarget] at hfile ⊢
    rw [hpieces]
    exact hthrough.follow_concat (by rw [hfile]; rfl)
  unfold read
  simp only [hlocate, kind?_eq_file.1 hfile, permit_eq_ok hpermitted, bind, Except.bind]
  rfl

/-- A folder that is made stands at a place of its path where nothing was before, though something
was where the path starts. -/
theorem kind?_of_makeFolder (h : d.makeFolder path = .ok d') :
    ∃ place ∈ trail (d.start path) (pieces path), place ≠ d.start path ∧ d.kind? place = none ∧
      d.refusal .makeFolder place = none ∧ d'.home = d.home ∧ d'.refusal = d.refusal ∧
      d'.kind? = Function.update d.kind? place (some .folder) := by
  rw [makeFolder_eq] at h
  obtain ⟨here, name, slash, hplace, h⟩ := exists_place rfl h
  obtain ⟨ps, blanks, hpieces, rfl, hfiller, hdots, rfl, hthrough⟩ := of_place_eq_some hplace
  dsimp only at h
  split at h
  · cases h
  · next hfree =>
    obtain ⟨hpermitted, h⟩ := refusal_of_permit h
    cases h
    have hnone : d.kind? (walk (d.start path) ps ++ [name]) = none := by simpa using hfree
    refine ⟨walk (d.start path) ps ++ [name], ?_, ?_, hnone, hpermitted, rfl, rfl, ?_⟩
    · rw [hpieces, List.append_cons, mem_trail_append, ← walk_name hfiller hdots]
      exact .inl (walk_mem_trail _ _)
    · intro heq
      rw [heq, hthrough.start] at hnone
      cases hnone
    · refine FileTree.kind?_put hthrough.last ?_ (by simp)
      intro hfolder
      exact absurd (hnone.symm.trans hfolder) (by simp)

end Disk
end ClassShape
