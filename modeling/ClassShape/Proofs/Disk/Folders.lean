import ClassShape.Disk.Text
import ClassShape.Proofs.Disk.Places

/-! Writing a file with the folders above it. Folders are made along the path only, and only where
nothing was; no file changes meanwhile. The attempt succeeds exactly when the path ends in a name,
meets no file and does not come to its own target before its end, when no folder is there and when
the system refuses nothing that is asked of it. -/
namespace ClassShape.Disk
open ClassShape.Path
variable {d d' d'' : Disk} {path : Bytes} {absolute : Bool} {ps : List Bytes} {p : Bytes}
  {P : List Bytes → Prop}

/-- Only folders are new, and only at places with a property where they may be made. -/
structure Grown (P : List Bytes → Prop) (d d' : Disk) : Prop where
  home : d'.home = d.home
  refusal : d'.refusal = d.refusal
  kinds : ∀ x, d'.kind? x = d.kind? x ∨
    P x ∧ d.kind? x = none ∧ d.refusal .makeFolder x = none ∧ d'.kind? x = some .folder

namespace Grown

theorem refl (P : List Bytes → Prop) (d : Disk) : Grown P d d := ⟨rfl, rfl, fun _ => .inl rfl⟩

theorem trans (h : Grown P d d') (h' : Grown P d' d'') : Grown P d d'' := by
  refine ⟨h'.home.trans h.home, h'.refusal.trans h.refusal, fun x => ?_⟩
  obtain hx | ⟨hP, hnone, hpermitted, hx⟩ := h.kinds x
  · rw [← hx, ← h.refusal]
    exact h'.kinds x
  · obtain hx' | ⟨-, hnone', -⟩ := h'.kinds x
    · exact .inr ⟨hP, hnone, hpermitted, hx'.trans hx⟩
    · rw [hx] at hnone'
      cases hnone'

theorem start (h : Grown P d d') (path : Bytes) : d'.start path = d.start path := by
  rw [Disk.start, Disk.start, h.home]

theorem folder (h : Grown P d d') {x : List Bytes} (hx : d.kind? x = some .folder) :
    d'.kind? x = some .folder := by
  obtain hsame | ⟨-, hnone, -⟩ := h.kinds x
  · rw [hsame, hx]
  · rw [hx] at hnone
    cases hnone

theorem file_iff (h : Grown P d d') {x : List Bytes} {content : Bytes} :
    d'.kind? x = some (.file content) ↔ d.kind? x = some (.file content) := by
  obtain hsame | ⟨-, hnone, -, hfolder⟩ := h.kinds x
  · rw [hsame]
  · simp [hnone, hfolder]

theorem makeable (h : Grown P d d') {x : List Bytes} (hx : d.Makeable x) : d'.Makeable x := by
  obtain hsame | ⟨-, -, -, hfolder⟩ := h.kinds x
  · rwa [Makeable, hsame, h.refusal]
  · exact .inl hfolder

theorem through (h : Grown P d d') {here : List Bytes} (hthrough : d.Through here ps) :
    d'.Through here ps :=
  fun x hx => h.folder (hthrough x hx)

theorem target (h : Grown P d d') (path : Bytes) : d'.target path = d.target path := by
  rw [Disk.target, Disk.target, h.start]

end Grown

theorem grown_makeFolder (h : d.makeFolder path = .ok d')
    (hP : ∀ x ∈ trail (d.start path) (pieces path), x ≠ d.start path → P x) : Grown P d d' := by
  obtain ⟨place, hmem, hne, hnone, hpermitted, hhome, hrefusal, hkind⟩ := kind?_of_makeFolder h
  refine ⟨hhome, hrefusal, fun x => ?_⟩
  rw [hkind]
  by_cases hx : x = place
  · subst hx
    exact .inr ⟨hP x hmem hne, hnone, hpermitted, Function.update_self ..⟩
  · exact .inl (Function.update_of_ne hx ..)

/-- However the making of folders ends, they are all that is new. -/
theorem grown_makeFolders (d : Disk) (paths : List Bytes)
    (hP : ∀ path ∈ paths, ∀ x ∈ trail (d.start path) (pieces path), x ≠ d.start path → P x) :
    Grown P d (d.makeFolders paths).1 := by
  induction paths with
  | nil => exact .refl P d
  | cons path above ih =>
    obtain ⟨hpath, habove⟩ := List.forall_mem_cons.1 hP
    have hgrown := ih habove
    unfold makeFolders
    split
    · next made hmade => exact grown_makeFolder hmade hpath
    · split
      · next e heq =>
        rwa [heq] at hgrown
      · next d' heq =>
        rw [heq] at hgrown
        split
        · next made hmade =>
          refine hgrown.trans (grown_makeFolder hmade ?_)
          rwa [hgrown.start]
        · exact hgrown
    · exact .refl P d

section Attempts
variable (hpieces : pieces path = way path ++ [p]) (hthrough : d.Through (d.start path) (way path))
include hpieces hthrough

theorem makeFolder_of_through (hp : (p == []) = false) :
    d.makeFolder path =
      if (d.kind? (d.target path)).isSome then .error .occupied
      else (d.permit .makeFolder (d.target path)).bind fun _ =>
        .ok { d with root := d.root.put (d.target path) (.folder []) } := by
  rw [makeFolder_eq, place_eq d hpieces hp (by simp), hthrough.follow_eq, Except.bind,
    if_pos hthrough.last]
  by_cases hdots : p = [dot] ∨ p = up
  · have hfolder : d.kind? (d.target path) = some .folder := by
      rw [target, hpieces, walk_append]
      obtain rfl | rfl := hdots
      · exact hthrough.last
      · exact FileTree.kind?_dropLast hthrough.last
    rw [if_pos hdots, hfolder]
    rfl
  · obtain ⟨hdot, hup⟩ := not_or.1 hdots
    have hname : isFiller p = false := by simp [isFiller, hp, hdot]
    rw [if_neg hdots, target_eq hpieces hname hup]
    rfl

theorem through_pieces (hgrown : Grown P d d')
    (htarget : d'.kind? (d.target path) = some .folder) :
    d'.Through (d.start path) (pieces path) := by
  rw [target, hpieces] at htarget
  rw [hpieces]
  exact through_concat.2 ⟨hgrown.through hthrough, htarget⟩

/-- In a folder that the path goes to, a folder is made unless one is there. -/
theorem makeFolder_or_isFolder (hp : (p == []) = false) (hmakeable : d.Makeable (d.target path)) :
    (∃ made, d.makeFolder path = .ok made ∧ made.Through (d.start path) (pieces path)) ∨
    d.makeFolder path = .error .occupied ∧ d.isFolder path = true := by
  have hmake := makeFolder_of_through hpieces hthrough hp
  obtain hkind | ⟨hkind, hpermitted⟩ := hmakeable
  · rw [hkind] at hmake
    exact .inr ⟨hmake, isFolder_iff.2 ⟨ne_empty_of_pieces hpieces hp,
      through_pieces hpieces hthrough (.refl (fun _ => True) d) hkind⟩⟩
  · rw [hkind, permit_eq_ok hpermitted] at hmake
    have hgrown := grown_makeFolder hmake fun _ _ _ => trivial
    obtain ⟨place, hmem, -, hnone, -, -, -, hupdate⟩ := kind?_of_makeFolder hmake
    refine .inl ⟨_, hmake, through_pieces hpieces hthrough hgrown ?_⟩
    -- the new folder is at the target, for there are folders before it
    rw [hpieces, mem_trail_concat, ← hpieces] at hmem
    obtain hmem | rfl := hmem
    · rw [hthrough place hmem] at hnone
      cases hnone
    · rw [hupdate]
      exact Function.update_self ..

theorem makeFolders_of_through (hp : (p == []) = false) (hmakeable : d.Makeable (d.target path))
    (above : List Bytes) :
    ∃ d', d.makeFolders (path :: above) = (d', none) ∧
      d'.Through (d.start path) (pieces path) := by
  obtain ⟨made, hmade, hall⟩ | ⟨hoccupied, hfolder⟩ :=
    makeFolder_or_isFolder hpieces hthrough hp hmakeable
  · exact ⟨made, by simp [makeFolders, hmade], hall⟩
  · exact ⟨d, by simp [makeFolders, hoccupied, hfolder], (isFolder_iff.1 hfolder).2⟩

end Attempts

/-- The second attempt, after the folders above have been made. -/
theorem makeFolders_of_notFound {above : List Bytes}
    (hmissing : d.makeFolder path = .error .notFound)
    (habove : d.makeFolders above = (d', none)) (hgrown : Grown P d d')
    (hpieces : pieces path = way path ++ [p]) (hp : (p == []) = false)
    (hthrough : d'.Through (d.start path) (way path)) (hmakeable : d.Makeable (d.target path)) :
    ∃ d', d.makeFolders (path :: above) = (d', none) ∧
      d'.Through (d.start path) (pieces path) := by
  rw [← hgrown.start] at hthrough ⊢
  rw [← hgrown.target] at hmakeable
  obtain ⟨made, hmade, hall⟩ | ⟨hoccupied, hfolder⟩ :=
    makeFolder_or_isFolder hpieces hthrough hp (hgrown.makeable hmakeable)
  · exact ⟨made, by simp [makeFolders, hmissing, habove, hmade], hall⟩
  · exact ⟨d', by simp [makeFolders, hmissing, habove, hoccupied, hfolder],
      (isFolder_iff.1 hfolder).2⟩

theorem start_render (h : Plain absolute ps) (d : Disk) :
    d.start (render absolute ps) = if absolute then [] else d.home := by
  rw [Disk.start, isAbsolute_render h]

theorem through_render (h : Plain absolute ps) {here : List Bytes} :
    d.Through here (pieces (render absolute ps)) ↔ d.Through here ps :=
  through_congr fun _ => mem_trail_render h

/-- The root is there already. -/
theorem makeFolders_root (h : d.kind? [] = some .folder) :
    d.makeFolders (ancestors (render true [])) = (d, none) := by
  have hplain : Plain true [] := ⟨by simp, by simp⟩
  have hrelative : relative (render true []) = [[]] := relative_render hplain
  have hpieces : pieces (render true []) = [[], []] := by
    rw [pieces_of_isAbsolute (isAbsolute_render hplain), hrelative]
  have hparent : parent? (render true []) = none := by
    rw [parent?_eq, isAbsolute_render hplain, hrelative]
    rfl
  have hroot : render true [] ≠ [] := by simp [render]
  have hmake : d.makeFolder (render true []) = .error .occupied := by
    rw [makeFolder_eq, place_blanks hroot (by simp [hpieces])]
    rfl
  have hfolder : d.isFolder (render true []) = true := by
    refine isFolder_iff.2 ⟨hroot, ?_⟩
    rw [through_render hplain, start_render hplain]
    exact through_nil.2 h
  rw [ancestors, hparent]
  simp [makeFolders, hmake, hfolder]

/-- One more folder: it is made at once if its own folder is there, and otherwise after that. -/
theorem makeFolders_step (hplain : Plain absolute (ps ++ [p]))
    (htrimmed : Trimmed absolute (ps ++ [p]))
    (hpassable : d.Passable (d.start (render absolute (ps ++ [p]))) (ps ++ [p]))
    (habove : render absolute (trimPieces absolute ps) ≠ [] →
      ∃ d', d.makeFolders (ancestors (render absolute (trimPieces absolute ps))) = (d', none) ∧
        d'.Through (d.start (render absolute (ps ++ [p]))) ps) :
    ∃ d', d.makeFolders (ancestors (render absolute (ps ++ [p]))) = (d', none) ∧
      d'.Through (d.start (render absolute (ps ++ [p]))) (ps ++ [p]) := by
  have hrelative : relative (render absolute (ps ++ [p])) = ps ++ [p] :=
    (relative_render hplain).trans (if_neg (by simp))
  have hway (here x : List Bytes) :
      x ∈ trail here (way (render absolute (ps ++ [p]))) ↔ x ∈ trail here ps := by
    rw [mem_trail_way, hrelative, List.dropLast_concat]
  have hpieces := pieces_eq_of_relative hrelative
  have hp : (p == []) = false := beq_eq_false_iff_ne.2 htrimmed.last_ne
  have htarget := hpassable.clear _ ((mem_trail_render hplain).1 (walk_mem_trail _ _))
  simp only [← through_render hplain]
  obtain hthrough | hmissing :=
    ((passable_congr (hway _)).2 hpassable.of_concat).through_or_notFound
  · obtain ⟨above, hcons⟩ := ancestors_eq_cons (render absolute (ps ++ [p]))
    rw [hcons]
    exact makeFolders_of_through hpieces hthrough hp htarget above
  · have hroot : render absolute (trimPieces absolute ps) ≠ [] := by
      intro hempty
      have hnil := (hplain.of_isPrefix ((trimPieces_isPrefix absolute ps).trans
        (List.prefix_append ps [p]))).eq_nil_of_render hempty
      -- a path of fillers stays where it starts
      have hthrough : d.Through (d.start (render absolute (ps ++ [p]))) ps := by
        rw [← through_congr fun _ => mem_trail_trimPieces absolute ps, hnil]
        exact through_nil.2 hpassable.start
      rw [((through_congr (hway _)).2 hthrough).follow_eq] at hmissing
      cases hmissing
    have hmake : d.makeFolder (render absolute (ps ++ [p])) = .error .notFound := by
      rw [makeFolder_eq, place_eq d hpieces hp (by simp), hmissing]
      rfl
    obtain ⟨d', hmade, hthrough⟩ := habove hroot
    have hgrown : Grown (fun _ => True) d d' := by
      have := grown_makeFolders d (ancestors (render absolute (trimPieces absolute ps)))
        fun _ _ _ _ _ => trivial
      rwa [hmade] at this
    rw [ancestors_render hplain htrimmed hroot]
    exact makeFolders_of_notFound hmake hmade hgrown hpieces hp
      ((through_congr (hway _)).2 hthrough) htarget

/-- If a path meets no file, the folders along it can be made. -/
theorem makeFolders_ancestors (hplain : Plain absolute ps) (htrimmed : Trimmed absolute ps)
    (hroot : render absolute ps ≠ [])
    (hpassable : d.Passable (d.start (render absolute ps)) ps) :
    ∃ d', d.makeFolders (ancestors (render absolute ps)) = (d', none) ∧
      d'.Through (d.start (render absolute ps)) ps := by
  induction hlength : ps.length using Nat.strongRecOn generalizing ps with
  | ind n ih =>
    obtain rfl | ⟨qs, p, rfl⟩ := List.eq_nil_or_concat' ps
    · cases absolute with
      | false => exact absurd rfl hroot
      | true => exact ⟨d, makeFolders_root hpassable.start, through_nil.2 hpassable.start⟩
    · refine makeFolders_step hplain htrimmed hpassable fun hroot' => ?_
      have hbefore := trimPieces_isPrefix absolute qs
      have hplain' := hplain.of_isPrefix (hbefore.trans (List.prefix_append qs [p]))
      have hlt : (trimPieces absolute qs).length < n := by
        have := hbefore.length_le
        simp only [← hlength, List.length_append, List.length_singleton]
        omega
      have hsame : d.start (render absolute (qs ++ [p])) =
          d.start (render absolute (trimPieces absolute qs)) := by
        rw [start_render hplain', start_render hplain]
      rw [hsame] at hpassable ⊢
      simp only [← through_congr fun _ => mem_trail_trimPieces absolute qs]
      refine ih _ hlt hplain' (trimmed_trimPieces absolute qs) hroot' ?_ rfl
      rw [passable_congr fun _ => mem_trail_trimPieces absolute qs]
      exact hpassable.of_concat

/-- A file can be written, with the folders above it: the path ends in a name, starts at a folder,
goes through folders that are there or may be made and comes to its target only at its end, and no
folder is there and the system does not refuse. -/
structure Writable (d : Disk) (path : Bytes) : Prop where
  name : EndsInName path
  start : d.kind? (d.start path) = some .folder
  clear : ∀ x ∈ trail (d.start path) (way path), d.Makeable x
  apart : d.target path ∉ trail (d.start path) (way path)
  free : d.kind? (d.target path) ≠ some .folder
  permitted : d.refusal .writeFile (d.target path) = none

theorem Writable.passable (h : d.Writable path) : d.Passable (d.start path) (way path) :=
  ⟨h.start, h.clear⟩

theorem value_ensureParent (d : Disk) (path : Bytes) :
    (d.ensureParent path).value =
      match parent? path with
      | none => ⟨d, none⟩
      | some parent =>
        if parent = [] ∨ d.exists? parent then ⟨d, none⟩
        else ⟨(d.makeFolders (ancestors parent)).1,
          (d.makeFolders (ancestors parent)).2.map (.makeFolder parent)⟩ := by
  unfold ensureParent
  cases parent? path with
  | none => rfl
  | some parent =>
    by_cases hempty : parent = []
    · simp [hempty]
    · cases hexists : d.exists? parent with
      | true => simp [hempty, ensureFolder, hexists]
      | false => simp [hempty, ensureFolder, hexists, makePath]

/-- However it ends, only folders on the way are new. -/
theorem grown_ensureParent (d : Disk) (path : Bytes) :
    Grown (fun x => x ∈ trail (d.start path) (way path) ∧ x ≠ d.start path) d
      (d.ensureParent path).value.disk := by
  rw [value_ensureParent]
  split
  · exact .refl _ d
  · next parent hparent =>
    split
    · exact .refl _ d
    · refine grown_makeFolders d _ fun q hq x hx hne => ?_
      obtain ⟨habsolute, htrail⟩ := of_parent? hparent
      obtain ⟨habsolute', htrail'⟩ := of_mem_ancestors hq
      have hstart : d.start q = d.start path := by
        rw [Disk.start, Disk.start, habsolute', habsolute]
      rw [hstart] at hx hne
      exact ⟨htrail _ (htrail' _ hx), hne⟩

/-- If a path meets no file, then what leads to a thing there goes through folders. -/
theorem Passable.through_of_exists? (hplain : Plain absolute ps)
    (hpassable : d.Passable (d.start (render absolute ps)) ps)
    (h : render absolute ps = [] ∨ d.exists? (render absolute ps) = true) :
    d.Through (d.start (render absolute ps)) ps := by
  obtain hempty | hexists := h
  · obtain rfl := hplain.eq_nil_of_render hempty
    exact through_nil.2 hpassable.start
  obtain hfolder | hfile := Bool.or_eq_true_iff.1 hexists
  · exact (through_render hplain).1 (isFolder_iff.1 hfolder).2
  · obtain ⟨content, hkind⟩ := kind?_of_isFile hfile
    have hmem : d.target (render absolute ps) ∈ trail (d.start (render absolute ps)) ps :=
      (mem_trail_render hplain).1 (walk_mem_trail _ _)
    exact absurd hkind (hpassable.clear _ hmem).ne_file

/-- The folder of a file that can be written is there, or can be made. -/
theorem Writable.value_ensureParent (h : d.Writable path) :
    ∃ d', (d.ensureParent path).value = ⟨d', none⟩ ∧ d'.Through (d.start path) (way path) := by
  have hplain := (plain_relative h.name.ne_empty).of_isPrefix
    ((trimPieces_isPrefix (isAbsolute path) _).trans (List.dropLast_prefix _))
  have hsame : d.start path = d.start
      (render (isAbsolute path) (trimPieces (isAbsolute path) (relative path).dropLast)) := by
    rw [start_render hplain, Disk.start]
  have hway (here x : List Bytes) : x ∈ trail here (way path) ↔
      x ∈ trail here (trimPieces (isAbsolute path) (relative path).dropLast) := by
    rw [mem_trail_way, mem_trail_trimPieces]
  have hpassable := (passable_congr (hway _)).1 h.passable
  simp only [through_congr (hway _)]
  rw [hsame] at hpassable ⊢
  rw [Disk.value_ensureParent, h.name.parent?_eq]
  dsimp only
  split
  · next hthere => exact ⟨d, rfl, hpassable.through_of_exists? hplain hthere⟩
  · next hmissing =>
    obtain ⟨d', hmade, hthrough⟩ := makeFolders_ancestors hplain (trimmed_trimPieces _ _)
      (fun hempty => hmissing (.inl hempty)) hpassable
    exact ⟨d', by rw [hmade]; rfl, hthrough⟩

/-- What can be written after folders have been made on the way could be written before. -/
theorem Ready.writable
    (h : Grown (fun x => x ∈ trail (d.start path) (way path) ∧ x ≠ d.start path) d d')
    (hready : d'.Ready path) : d.Writable path := by
  have hthrough := hready.through
  have hfree := hready.free
  rw [h.start] at hthrough
  rw [h.target] at hfree
  refine ⟨hready.name, ?_, ?_, ?_, ?_, ?_⟩
  · obtain hsame | ⟨⟨-, hne⟩, -⟩ := h.kinds (d.start path)
    · rw [← hsame]
      exact hthrough.start
    · exact absurd rfl hne
  · intro x hx
    obtain hsame | ⟨-, hnone, hpermitted, -⟩ := h.kinds x
    · exact .inl (hsame.symm.trans (hthrough x hx))
    · exact .inr ⟨hnone, hpermitted⟩
  · intro hmem
    exact hfree (hthrough _ hmem)
  · intro hfolder
    exact hfree (h.folder hfolder)
  · rw [← h.refusal, ← h.target]
    exact hready.permitted

def contents (d : Disk) (place : List Bytes) : Option Bytes :=
  match d.root.get? place with
  | some (.file content) => some content
  | _ => none

theorem contents_eq_some_iff {place : List Bytes} {content : Bytes} :
    d.contents place = some content ↔ d.kind? place = some (.file content) := by
  rw [kind?_eq_file, contents]
  split
  · next c hget => simp [hget]
  · next hget => simpa using hget content

theorem Grown.contents (h : Grown P d d') : d'.contents = d.contents := by
  funext place
  refine Option.ext fun content => ?_
  rw [contents_eq_some_iff, contents_eq_some_iff, h.file_iff]

theorem contents_update {place : List Bytes} {content : Bytes}
    (h : d'.kind? = Function.update d.kind? place (some (.file content))) :
    d'.contents = Function.update d.contents place (some content) := by
  funext x
  refine Option.ext fun c => ?_
  rw [contents_eq_some_iff, h]
  by_cases hx : x = place
  · subst hx
    simp
  · rw [Function.update_of_ne hx, Function.update_of_ne hx, contents_eq_some_iff]

theorem value_writeText (d : Disk) (path : Bytes) (text : String) :
    (d.writeText path text).value =
      match (d.ensureParent path).value with
      | ⟨d', some e⟩ => ⟨d', some e⟩
      | ⟨d', none⟩ =>
        match d'.write path (Text.encode text) with
        | .ok written => ⟨written, none⟩
        | .error e => ⟨d', some (.writeFile path e)⟩ := by
  rw [writeText, Logged.value_bind]
  cases (d.ensureParent path).value with
  | mk d' failure =>
    cases failure with
    | some e => rfl
    | none =>
      dsimp only
      cases d'.write path (Text.encode text) with
      | ok written => rfl
      | error e => rfl

/-- A text that can be written is all that changes in the files, and is read from there unless the
system refuses. -/
theorem Writable.value_writeText (h : d.Writable path) (text : String) :
    ∃ d', (d.writeText path text).value = ⟨d', none⟩ ∧
      d'.contents = Function.update d.contents (d.target path) (some (Text.encode text)) ∧
      (d.refusal .readFile (d.target path) = none → d'.read path = .ok (Text.encode text)) := by
  obtain ⟨d', hmade, hthrough⟩ := h.value_ensureParent
  have hgrown := grown_ensureParent d path
  rw [hmade] at hgrown
  have hready : d'.Ready path := by
    refine ⟨h.name, by rwa [hgrown.start], ?_, ?_⟩
    · rw [hgrown.target]
      obtain hsame | ⟨⟨hmem, -⟩, -⟩ := hgrown.kinds (d.target path)
      · rw [hsame]
        exact h.free
      · exact absurd hmem h.apart
    · rw [hgrown.refusal, hgrown.target]
      exact h.permitted
  have hkind := hready.kind?_put (Text.encode text)
  refine ⟨_, by rw [Disk.value_writeText, hmade]; dsimp only; rw [hready.write_eq], ?_, ?_⟩
  · rw [contents_update hkind, hgrown.contents, hgrown.target]
  · intro hreadable
    rw [← hgrown.refusal, ← hgrown.target] at hreadable
    refine read_of_through hready.name (fun x hx => ?_) ?_ hreadable
    · rw [hkind, Function.update_of_ne, hready.through x hx]
      rintro rfl
      exact hready.free (hready.through _ hx)
    · rw [hkind]
      exact Function.update_self ..

/-- A text that cannot be written changes no file. -/
theorem value_writeText_of_not_writable (h : ¬ d.Writable path) (text : String) :
    ∃ d' e, (d.writeText path text).value = ⟨d', some e⟩ ∧ d'.contents = d.contents := by
  have hgrown := grown_ensureParent d path
  rw [Disk.value_writeText]
  split
  · next d' e hmade =>
    rw [hmade] at hgrown
    exact ⟨d', e, rfl, hgrown.contents⟩
  · next d' hmade =>
    rw [hmade] at hgrown
    split
    · next written hwrite => exact absurd ((ready_of_write hwrite).writable hgrown) h
    · next e hwrite => exact ⟨d', _, rfl, hgrown.contents⟩

end ClassShape.Disk
