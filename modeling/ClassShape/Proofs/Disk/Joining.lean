import ClassShape.Proofs.Disk.Places

/-! Names put after a path. They are its further components, and they lead on from where the path
leads. -/
namespace ClassShape

namespace Path
variable {path name : Bytes} {names : List Bytes}

structure IsEntryName (name : Bytes) : Prop where
  notFiller : isFiller name = false
  notUp : name ≠ up
  slashless : slash ∉ name

instance (name : Bytes) : Decidable (IsEntryName name) :=
  decidable_of_iff (isFiller name = false ∧ name ≠ up ∧ slash ∉ name)
    ⟨fun h => ⟨h.1, h.2.1, h.2.2⟩, fun h => ⟨h.1, h.2, h.3⟩⟩

/-- What stands between the slashes of a path, without what is passed over. A dot that starts a
path counts, and so does the slash that makes it absolute. -/
def components (path : Bytes) : List Bytes :=
  let start :=
    if isAbsolute path then [[slash]] else if (pieces path).head? = some [dot] then [[dot]] else []
  start ++ (pieces path).filter fun p => !isFiller p

/-- The order of paths component by component, and of components byte by byte. -/
def Before (p q : Bytes) : Prop := components p < components q

theorem not_before_self (path : Bytes) : ¬Before path path := List.lt_irrefl (components path)

theorem nodup_of_pairwise_before {paths : List Bytes} (h : paths.Pairwise Before) :
    paths.Nodup := by
  refine h.imp fun {p q} hpq heq => ?_
  rw [heq] at hpq
  exact not_before_self q hpq

theorem join_ne_empty (hpath : path ≠ []) (name : Bytes) : join path name ≠ [] := by
  unfold join
  split <;> simp [hpath]

theorem isAbsolute_join (hpath : path ≠ []) (name : Bytes) :
    isAbsolute (join path name) = isAbsolute path := by
  obtain ⟨c, cs, rfl⟩ := List.exists_cons_of_ne_nil hpath
  unfold join
  split <;> simp [isAbsolute]

/-- The name is the last piece, after those of the path. A slash at the end of the path leaves an
empty piece, and the name takes its place. -/
theorem exists_pieces_join (hpath : path ≠ []) (hname : slash ∉ name) :
    ∃ ps fillers, ps ≠ [] ∧ pieces path = ps ++ fillers ∧ (∀ q ∈ fillers, isFiller q = true) ∧
      pieces (join path name) = ps ++ [name] := by
  have hne : ∀ bs, pieces bs ≠ [] := by simp [pieces, Text.split]
  have hconcat : ∀ bs, pieces (bs ++ slash :: name) = pieces bs ++ [name] := fun bs => by
    rw [pieces, Text.split_append_sep, Text.split_of_notMem hname, pieces]
  unfold join
  by_cases hslash : path.getLast? = some slash
  · obtain ⟨bs, rfl⟩ := List.getLast?_eq_some_iff.1 hslash
    refine ⟨pieces bs, [[]], hne bs, Text.split_append_sep bs [], by simp [isFiller], ?_⟩
    rw [if_pos (by simp), List.append_assoc, List.singleton_append, hconcat]
  · refine ⟨pieces path, [], hne path, (List.append_nil _).symm, by simp, ?_⟩
    rw [if_neg (by simp [hslash, hpath]), hconcat]

/-- A name that is put after a path is one more component. -/
theorem components_join (hpath : path ≠ []) (hname : IsEntryName name) :
    components (join path name) = components path ++ [name] := by
  obtain ⟨ps, fillers, hne, hpieces, hfillers, hjoin⟩ := exists_pieces_join hpath hname.slashless
  have hnone : fillers.filter (fun p => !isFiller p) = [] :=
    List.filter_eq_nil_iff.2 fun q hq => by simp [hfillers q hq]
  have hkept : [name].filter (fun p => !isFiller p) = [name] := by simp [hname.notFiller]
  simp only [components, isAbsolute_join hpath, hjoin, hpieces, List.filter_append, hnone, hkept,
    List.head?_append_of_ne_nil _ hne, List.append_nil, List.append_assoc]

theorem components_foldl_join (hpath : path ≠ []) (hnames : ∀ n ∈ names, IsEntryName n) :
    components (names.foldl join path) = components path ++ names := by
  induction names generalizing path with
  | nil => simp
  | cons n ns ih =>
    obtain ⟨hn, hns⟩ := List.forall_mem_cons.1 hnames
    rw [List.foldl_cons, ih (join_ne_empty hpath n) hns, components_join hpath hn,
      List.append_assoc, List.singleton_append]

end Path

theorem FileTree.get?_append (t : FileTree) (ns ms : List Bytes) :
    t.get? (ns ++ ms) = (t.get? ns).bind fun u => u.get? ms := by
  induction ns generalizing t with
  | nil => simp [get?]
  | cons n ns ih =>
    cases t with
    | file content => simp [get?]
    | folder entries =>
      simp only [List.cons_append, get?]
      cases entries.lookup n with
      | none => rfl
      | some u => exact ih u

namespace Disk
open ClassShape.Path
variable {d : Disk} {path name : Bytes} {t u : FileTree}

/-- A name leads from a folder to what has that name in it. -/
theorem find_join {entries : List (Bytes × FileTree)} (h : d.find path = .ok (.folder entries))
    (hname : IsEntryName name) (ht : entries.lookup name = some t) :
    d.find (join path name) = .ok t := by
  obtain ⟨hpath, hfollow, hget⟩ := find_eq_ok_iff.1 h
  have hthrough := through_of_follow hfollow (kind?_eq_folder.2 ⟨entries, hget⟩)
  obtain ⟨ps, fillers, -, hpieces, hfillers, hjoin⟩ := exists_pieces_join hpath hname.slashless
  have hplace : walk (d.start path) ps = d.target path := by
    have hlast := walk_mem_trail (walk (d.start path) ps) fillers
    rw [mem_trail_fillers hfillers] at hlast
    rw [target, hpieces, walk_append, hlast]
  have hfolders : d.Through (d.start path) ps :=
    fun x hx => hthrough x (hpieces ▸ mem_trail_append.2 (.inl hx))
  have hstart : d.start (join path name) = d.start path := by
    rw [start, isAbsolute_join hpath, start]
  have htarget : d.target (join path name) = d.target path ++ [name] := by
    rw [target_eq hjoin hname.notFiller hname.notUp, hstart, hplace]
  have hthere : d.root.get? (d.target (join path name)) = some t := by
    rw [htarget, FileTree.get?_append, hget]
    simp [FileTree.get?, ht]
  refine find_eq_ok_iff.2 ⟨join_ne_empty hpath name, ?_, hthere⟩
  rw [target, hjoin, hstart] at hthere ⊢
  exact hfolders.follow_concat (by rw [← isSome_get?, hthere]; rfl)

end Disk
end ClassShape
