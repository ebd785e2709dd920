import ClassShape.Disk.Path
import ClassShape.Proofs.Splitting
import Mathlib.Data.List.DropRight

/-! Paths as ways through places. A place is a list of names from the root down; each piece of a
path leads from one place to the next, and fillers lead nowhere. A path is written from its pieces
and read back as them, and its parent goes through the same places but for the last. -/
namespace ClassShape

namespace Path

section Pieces
variable {absolute : Bool} {ps qs : List Bytes} {path p : Bytes}

theorem notMem_of_mem_pieces (h : p ∈ pieces path) : slash ∉ p :=
  Text.notMem_of_mem_split h

theorem pieces_intercalate (hne : ps ≠ []) (h : ∀ p ∈ ps, slash ∉ p) :
    pieces ([slash].intercalate ps) = ps :=
  Text.split_intercalate hne h

theorem pieces_slash (path : Bytes) : pieces (slash :: path) = [] :: pieces path :=
  Text.split_append List.not_mem_nil path

theorem pieces_empty : pieces [] = [[]] := rfl

theorem ne_empty_of_pieces (h : pieces path = ps ++ p :: qs) (hp : (p == []) = false) :
    path ≠ [] := by
  rintro rfl
  have hmem : p ∈ pieces [] := by simp [h]
  rw [pieces_empty, List.mem_singleton] at hmem
  simp [hmem] at hp

def render (absolute : Bool) (ps : List Bytes) : Bytes :=
  let rest := [slash].intercalate ps
  if absolute then slash :: rest else rest

def relative (path : Bytes) : List Bytes :=
  if isAbsolute path then (pieces path).drop 1 else pieces path

theorem parent?_eq (path : Bytes) :
    parent? path =
      let real := trimPieces (isAbsolute path) (relative path)
      if real.isEmpty then none
      else some (render (isAbsolute path) (trimPieces (isAbsolute path) real.dropLast)) := rfl

structure Plain (absolute : Bool) (ps : List Bytes) : Prop where
  slashless : ∀ p ∈ ps, slash ∉ p
  start : absolute = false → ps.head? ≠ some []

theorem Plain.of_isPrefix (h : Plain absolute ps) (hqs : qs <+: ps) : Plain absolute qs := by
  obtain ⟨rs, rfl⟩ := hqs
  refine ⟨fun q hq => h.slashless q (List.mem_append_left rs hq), fun hrelative => ?_⟩
  cases qs with
  | nil => simp
  | cons q qs => simpa using h.start hrelative

theorem isAbsolute_render (h : Plain absolute ps) :
    isAbsolute (render absolute ps) = absolute := by
  cases absolute with
  | true => simp [isAbsolute, render]
  | false =>
    rw [isAbsolute, render, if_neg (by simp)]
    cases ps with
    | nil => rfl
    | cons p ps =>
      have hp : p ≠ [] := by simpa using h.start rfl
      obtain ⟨c, cs, rfl⟩ := List.exists_cons_of_ne_nil hp
      have hc : c ≠ slash := by
        rintro rfl
        exact h.slashless _ List.mem_cons_self List.mem_cons_self
      cases ps with
      | nil => simp [hc]
      | cons q ps => simp [hc]

theorem relative_render (h : Plain absolute ps) :
    relative (render absolute ps) = if ps = [] then [[]] else ps := by
  have hpieces : pieces ([slash].intercalate ps) = if ps = [] then [[]] else ps := by
    by_cases hps : ps = []
    · rw [hps, List.intercalate_nil, pieces_empty, if_pos rfl]
    · rw [pieces_intercalate hps h.slashless, if_neg hps]
  rw [relative, isAbsolute_render h, ← hpieces]
  cases absolute with
  | true => rw [render, if_pos rfl, if_pos rfl, pieces_slash, List.drop_one, List.tail_cons]
  | false => rfl

theorem Plain.eq_nil_of_render (h : Plain absolute ps) (hempty : render absolute ps = []) :
    ps = [] := by
  have hrelative := relative_render h
  have habsolute := isAbsolute_render h
  rw [hempty] at hrelative habsolute
  by_contra hne
  rw [if_neg hne, relative, if_neg (by simp [isAbsolute]), pieces_empty] at hrelative
  exact h.start habsolute.symm (by rw [← hrelative]; rfl)

theorem pieces_of_isAbsolute (h : isAbsolute path = true) :
    pieces path = [] :: relative path := by
  obtain ⟨cs, rfl⟩ : ∃ cs, path = slash :: cs := by
    cases path with
    | nil => simp [isAbsolute] at h
    | cons c cs => exact ⟨cs, by simpa [isAbsolute] using h⟩
  rw [relative, if_pos h, pieces_slash, List.drop_one, List.tail_cons]

theorem plain_relative (h : path ≠ []) : Plain (isAbsolute path) (relative path) := by
  constructor
  · intro p hp
    have hp : p ∈ pieces path := by
      unfold relative at hp
      split at hp
      · exact List.mem_of_mem_drop hp
      · exact hp
    exact notMem_of_mem_pieces hp
  · intro hrelative
    rw [relative, if_neg (by simp [hrelative]), pieces]
    obtain ⟨c, cs, rfl⟩ := List.exists_cons_of_ne_nil h
    have hc : c ≠ slash := by simpa [isAbsolute] using hrelative
    obtain ⟨v, vs, -, hsplit⟩ := Text.split_cons_of_ne hc cs
    simp [hsplit]

end Pieces

def step (here : List Bytes) (piece : Bytes) : List Bytes :=
  if isFiller piece then here else if piece = up then here.dropLast else here ++ [piece]

def walk (here : List Bytes) (ps : List Bytes) : List Bytes := ps.foldl step here

/-- The places that pieces go through, the first and the last among them. -/
def trail (here : List Bytes) : List Bytes → List (List Bytes)
  | [] => [here]
  | p :: ps => here :: trail (step here p) ps

def way (path : Bytes) : List Bytes := (pieces path).dropLast

section Trails
variable {here ps qs place : List Bytes}

theorem start_mem_trail (here ps : List Bytes) : here ∈ trail here ps := by
  cases ps with
  | nil => exact List.mem_singleton_self here
  | cons p ps => exact List.mem_cons_self

theorem walk_mem_trail (here ps : List Bytes) : walk here ps ∈ trail here ps := by
  induction ps generalizing here with
  | nil => exact List.mem_singleton_self here
  | cons p ps ih => exact List.mem_cons_of_mem here (ih (step here p))

theorem walk_append (here ps qs : List Bytes) : walk here (ps ++ qs) = walk (walk here ps) qs :=
  List.foldl_append

theorem walk_name {name : Bytes} (hfiller : isFiller name = false) (hdots : name ≠ up)
    (here ps : List Bytes) : walk here (ps ++ [name]) = walk here ps ++ [name] := by
  rw [walk_append]
  simp [walk, step, hfiller, hdots]

theorem mem_trail_append :
    place ∈ trail here (ps ++ qs) ↔ place ∈ trail here ps ∨ place ∈ trail (walk here ps) qs := by
  induction ps generalizing here with
  | nil =>
    constructor
    · exact .inr
    · rintro (h | h)
      · obtain rfl := List.mem_singleton.1 h
        exact start_mem_trail place qs
      · exact h
  | cons p ps ih =>
    simp only [List.cons_append, trail, List.mem_cons, ih, walk, List.foldl_cons, or_assoc]

theorem trail_subset_trail (h : ps <+: qs) : trail here ps ⊆ trail here qs := by
  obtain ⟨rs, rfl⟩ := h
  exact fun x hx => mem_trail_append.2 (.inl hx)

theorem mem_trail_concat {p : Bytes} :
    place ∈ trail here (ps ++ [p]) ↔ place ∈ trail here ps ∨ place = walk here (ps ++ [p]) := by
  have hlast : trail (walk here ps) [p] = [walk here ps, walk here (ps ++ [p])] := by
    rw [walk_append]
    rfl
  have := walk_mem_trail here ps
  rw [mem_trail_append, hlast]
  constructor
  · rintro (h | h)
    · exact .inl h
    · obtain rfl | h := List.mem_cons.1 h
      · exact .inl this
      · exact .inr (List.mem_singleton.1 h)
  · rintro (h | rfl)
    · exact .inl h
    · exact .inr (List.mem_cons_of_mem _ (List.mem_singleton_self _))

/-- Fillers lead nowhere else. -/
theorem mem_trail_fillers (h : ∀ q ∈ qs, isFiller q = true) :
    place ∈ trail here qs ↔ place = here := by
  induction qs with
  | nil => exact List.mem_singleton
  | cons q qs ih =>
    obtain ⟨hq, hqs⟩ := List.forall_mem_cons.1 h
    simp [trail, step, hq, ih hqs]

theorem mem_trail_append_fillers (h : ∀ q ∈ qs, isFiller q = true) :
    place ∈ trail here (ps ++ qs) ↔ place ∈ trail here ps := by
  rw [mem_trail_append, mem_trail_fillers h]
  constructor
  · rintro (h | rfl)
    · exact h
    · exact walk_mem_trail here ps
  · exact .inl

theorem mem_trail_blank : place ∈ trail here ([] :: ps) ↔ place ∈ trail here ps := by
  have hblank : trail here ([] :: ps) = here :: trail here ps := rfl
  rw [hblank, List.mem_cons]
  constructor
  · rintro (rfl | h)
    · exact start_mem_trail place ps
    · exact h
  · exact .inr

theorem mem_trail_pieces {path : Bytes} :
    place ∈ trail here (pieces path) ↔ place ∈ trail here (relative path) := by
  cases h : isAbsolute path with
  | false => rw [relative, if_neg (by simp [h])]
  | true => rw [pieces_of_isAbsolute h, mem_trail_blank]

theorem pieces_eq_of_relative {path p : Bytes} (h : relative path = ps ++ [p]) :
    pieces path = way path ++ [p] := by
  have hlast : (pieces path).getLast? = some p := by
    cases habsolute : isAbsolute path with
    | false =>
      rw [relative, if_neg (by simp [habsolute])] at h
      rw [h, List.getLast?_concat]
    | true => rw [pieces_of_isAbsolute habsolute, h, ← List.cons_append, List.getLast?_concat]
  exact (List.dropLast_append_getLast? p hlast).symm

theorem mem_trail_way {path : Bytes} :
    place ∈ trail here (way path) ↔ place ∈ trail here (relative path).dropLast := by
  cases h : isAbsolute path with
  | false => rw [way, relative, if_neg (by simp [h])]
  | true =>
    rw [way, pieces_of_isAbsolute h]
    cases relative path with
    | nil => rfl
    | cons p ps => rw [List.dropLast_cons_cons, mem_trail_blank]

theorem mem_trail_render {absolute : Bool} (h : Plain absolute ps) :
    place ∈ trail here (pieces (render absolute ps)) ↔ place ∈ trail here ps := by
  rw [mem_trail_pieces, relative_render h]
  split
  · next hps =>
    rw [hps, ← List.nil_append [[]], mem_trail_append_fillers (by simp [isFiller])]
  · rfl

end Trails

section Trimming
variable {here ps qs place : List Bytes} {absolute : Bool} {p : Bytes} {f : Bytes → Bool}

/-- There is a last one without a property, unless all have it. -/
theorem exists_last {α : Type} (f : α → Bool) (ps : List α) :
    (∀ p ∈ ps, f p = true) ∨
      ∃ qs p rest, ps = qs ++ p :: rest ∧ f p = false ∧ ∀ q ∈ rest, f q = true := by
  induction ps using List.reverseRecOn with
  | nil => exact .inl (by simp)
  | append_singleton ps p ih =>
    cases hp : f p with
    | false => exact .inr ⟨ps, p, [], rfl, hp, by simp⟩
    | true =>
      have hlast : ∀ q ∈ [p], f q = true := List.forall_mem_singleton.2 hp
      cases ih with
      | inl h => exact .inl (List.forall_mem_append.2 ⟨h, hlast⟩)
      | inr h =>
        obtain ⟨qs, q, rest, rfl, hq, hrest⟩ := h
        exact .inr ⟨qs, q, rest ++ [p], by simp, hq, List.forall_mem_append.2 ⟨hrest, hlast⟩⟩

theorem dropEnd_all (h : ∀ p ∈ ps, f p = true) : (ps.reverse.dropWhile f).reverse = [] := by
  simpa [List.dropWhile_eq_nil_iff] using h

theorem dropEnd_last (hp : f p = false) (hqs : ∀ q ∈ qs, f q = true) :
    ((ps ++ p :: qs).reverse.dropWhile f).reverse = ps ++ [p] := by
  have hrun : ∀ q ∈ qs.reverse, f q = true := fun q hq => hqs q (List.mem_reverse.1 hq)
  rw [List.reverse_append, List.reverse_cons, List.append_assoc,
    List.dropWhile_append_of_pos hrun]
  simp [hp]

theorem dropFillers_append (ps : List Bytes) :
    ∃ fillers, ps = dropFillers ps ++ fillers ∧ ∀ q ∈ fillers, isFiller q = true := by
  obtain h | ⟨qs, p, rest, rfl, hp, hrest⟩ := exists_last isFiller ps
  · exact ⟨ps, by rw [dropFillers, dropEnd_all h, List.nil_append], h⟩
  · exact ⟨rest, by rw [dropFillers, dropEnd_last hp hrest, ← List.append_cons], hrest⟩

theorem isFiller_of_dropFillers (h : dropFillers ps = qs ++ [p]) : isFiller p = false := by
  obtain hall | ⟨rs, q, rest, rfl, hq, hrest⟩ := exists_last isFiller ps
  · rw [dropFillers, dropEnd_all hall] at h
    simp at h
  · rw [dropFillers, dropEnd_last hq hrest] at h
    obtain ⟨-, hqp⟩ := List.append_inj' h rfl
    cases hqp
    exact hq

/-- What is trimmed off are fillers. -/
theorem trimPieces_append (absolute : Bool) (ps : List Bytes) :
    ∃ fillers, ps = trimPieces absolute ps ++ fillers ∧ ∀ q ∈ fillers, isFiller q = true := by
  cases ps with
  | nil => exact ⟨[], rfl, by simp⟩
  | cons p ps =>
    rw [trimPieces]
    split
    · obtain ⟨fillers, hps, hfillers⟩ := dropFillers_append ps
      exact ⟨fillers, by rw [List.cons_append, ← hps], hfillers⟩
    · exact dropFillers_append (p :: ps)

theorem trimPieces_isPrefix (absolute : Bool) (ps : List Bytes) : trimPieces absolute ps <+: ps := by
  obtain ⟨fillers, hps, -⟩ := trimPieces_append absolute ps
  exact ⟨fillers, hps.symm⟩

theorem mem_trail_trimPieces (absolute : Bool) (ps : List Bytes) :
    place ∈ trail here (trimPieces absolute ps) ↔ place ∈ trail here ps := by
  obtain ⟨fillers, hps, hfillers⟩ := trimPieces_append absolute ps
  rw [← mem_trail_append_fillers hfillers, ← hps]

/-- The last piece is no filler, unless it is the only one and a dot. -/
def Trimmed (absolute : Bool) (ps : List Bytes) : Prop :=
  ∀ qs p, ps = qs ++ [p] → isFiller p = false ∨ absolute = false ∧ ps = [[dot]]

theorem trimmed_trimPieces (absolute : Bool) (ps : List Bytes) :
    Trimmed absolute (trimPieces absolute ps) := by
  intro qs p h
  cases ps with
  | nil => simp [trimPieces] at h
  | cons q ps =>
    rw [trimPieces] at h ⊢
    split at h
    · next hdot =>
      rw [if_pos hdot]
      obtain ⟨rfl, rfl⟩ : absolute = false ∧ q = [dot] := by simpa using hdot
      cases qs with
      | nil =>
        obtain ⟨-, hrest⟩ := List.cons.inj h
        exact .inr ⟨rfl, by rw [hrest]⟩
      | cons r qs =>
        obtain ⟨-, hrest⟩ := List.cons.inj h
        exact .inl (isFiller_of_dropFillers hrest)
    · exact .inl (isFiller_of_dropFillers h)

theorem Trimmed.trimPieces_eq (h : Trimmed absolute ps) : trimPieces absolute ps = ps := by
  obtain ⟨fillers, hps, hfillers⟩ := trimPieces_append absolute ps
  induction fillers using List.reverseRecOn with
  | nil => simpa using hps.symm
  | append_singleton fillers f _ =>
    have hf := hfillers f (by simp)
    obtain hnot | ⟨rfl, rfl⟩ := h (trimPieces absolute ps ++ fillers) f (by rwa [List.append_assoc])
    · rw [hf] at hnot
      cases hnot
    · rfl

end Trimming

def EndsInName (path : Bytes) : Prop :=
  ∃ name ∈ (pieces path).getLast?, isFiller name = false ∧ name ≠ up

section Parents
variable {here ps qs place : List Bytes} {absolute : Bool} {path q : Bytes}

theorem EndsInName.exists_pieces (h : EndsInName path) :
    ∃ name, pieces path = way path ++ [name] ∧ isFiller name = false ∧ name ≠ up := by
  obtain ⟨name, hlast, hfiller, hdots⟩ := h
  exact ⟨name, (List.dropLast_append_getLast? name hlast).symm, hfiller, hdots⟩

theorem EndsInName.ne_empty (h : EndsInName path) : path ≠ [] := by
  obtain ⟨name, hpieces, hfiller, -⟩ := h.exists_pieces
  exact ne_empty_of_pieces hpieces (Bool.or_eq_false_iff.1 hfiller).1

/-- The parent of a path that ends in a name has all the pieces before it, but for fillers. -/
theorem EndsInName.parent?_eq (h : EndsInName path) :
    parent? path = some (render (isAbsolute path)
      (trimPieces (isAbsolute path) (relative path).dropLast)) := by
  obtain ⟨name, hlast, hfiller, -⟩ := h
  have hrelative : (relative path).getLast? = some name := by
    cases habsolute : isAbsolute path with
    | false => rwa [relative, if_neg (by simp [habsolute])]
    | true =>
      rw [pieces_of_isAbsolute habsolute] at hlast
      cases hpieces : relative path with
      | nil =>
        rw [hpieces] at hlast
        cases hlast
        cases hfiller
      | cons p ps =>
        rw [hpieces, List.getLast?_cons_cons] at hlast
        exact hlast
  have htrimmed : Trimmed (isAbsolute path) (relative path) := by
    intro qs p hqs
    rw [hqs, List.getLast?_concat] at hrelative
    cases hrelative
    exact .inl hfiller
  have hne : relative path ≠ [] := by
    rintro hnil
    simp [hnil] at hrelative
  rw [Path.parent?_eq, htrimmed.trimPieces_eq]
  simp [hne]

theorem relative_empty : relative [] = [[]] := by
  rw [relative, if_neg (by simp [isAbsolute]), pieces_empty]

theorem dropLast_isPrefix_dropLast (h : ps <+: qs) : ps.dropLast <+: qs.dropLast := by
  obtain ⟨rs, rfl⟩ := h
  cases rs with
  | nil => simp
  | cons r rs =>
    rw [List.dropLast_append_of_ne_nil (by simp)]
    exact (List.dropLast_prefix ps).trans (List.prefix_append ps _)

/-- A parent goes through places that the path goes through before its last piece. -/
theorem of_parent? (h : parent? path = some q) :
    isAbsolute q = isAbsolute path ∧ ∀ here, trail here (pieces q) ⊆ trail here (way path) := by
  by_cases hpath : path = []
  · subst hpath
    simp [parent?_eq, relative_empty, trimPieces, dropFillers, isFiller, isAbsolute] at h
  rw [parent?_eq] at h
  dsimp only at h
  split at h
  · cases h
  · cases h
    have hreal := trimPieces_isPrefix (isAbsolute path) (relative path)
    have hplain := ((plain_relative hpath).of_isPrefix hreal).of_isPrefix
      ((trimPieces_isPrefix (isAbsolute path) _).trans (List.dropLast_prefix _))
    refine ⟨isAbsolute_render hplain, fun here x hx => ?_⟩
    rw [mem_trail_render hplain, mem_trail_trimPieces] at hx
    rw [mem_trail_way]
    exact trail_subset_trail (dropLast_isPrefix_dropLast hreal) hx

theorem of_mem_ancestors (h : q ∈ ancestors path) :
    isAbsolute q = isAbsolute path ∧ ∀ here, trail here (pieces q) ⊆ trail here (pieces path) := by
  fun_induction ancestors path with
  | case1 path p hparent hshort _ ih =>
    obtain rfl | h := List.mem_cons.1 h
    · exact ⟨rfl, fun here => List.Subset.refl _⟩
    · obtain ⟨habsolute, htrail⟩ := of_parent? hparent
      obtain ⟨habsolute', htrail'⟩ := ih h
      refine ⟨habsolute'.trans habsolute, fun here x hx => ?_⟩
      exact trail_subset_trail (List.dropLast_prefix _) (htrail here (htrail' here hx))
  | case2 path p hparent hshort =>
    obtain rfl := List.mem_singleton.1 h
    exact ⟨rfl, fun here => List.Subset.refl _⟩
  | case3 path hparent =>
    obtain rfl := List.mem_singleton.1 h
    exact ⟨rfl, fun here => List.Subset.refl _⟩

theorem ancestors_eq_cons (path : Bytes) : ∃ above, ancestors path = path :: above := by
  rw [ancestors]
  split
  · split
    · exact ⟨_, rfl⟩
    · exact ⟨[], rfl⟩
  · exact ⟨[], rfl⟩

theorem intercalate_append (hps : ps ≠ []) (hqs : qs ≠ []) :
    [slash].intercalate (ps ++ qs) = [slash].intercalate ps ++ slash :: [slash].intercalate qs := by
  induction ps with
  | nil => exact absurd rfl hps
  | cons p ps ih =>
    cases ps with
    | nil =>
      obtain ⟨q, qs, rfl⟩ := List.exists_cons_of_ne_nil hqs
      simp
    | cons r ps =>
      have hrest := ih (List.cons_ne_nil r ps)
      simp only [List.cons_append, List.intercalate_cons_cons] at hrest ⊢
      simp [hrest]

theorem intercalate_ne_nil {p : Bytes} (hp : p ≠ []) (ps : List Bytes) :
    [slash].intercalate (ps ++ [p]) ≠ [] := by
  cases ps with
  | nil => simpa using hp
  | cons q ps =>
    rw [intercalate_append (by simp) (by simp)]
    simp

theorem length_intercalate_lt {p : Bytes} (hp : p ≠ []) (h : ps <+: qs) :
    ([slash].intercalate ps).length < ([slash].intercalate (qs ++ [p])).length := by
  obtain ⟨us, rfl⟩ := h
  cases ps with
  | nil => simpa using List.length_pos_iff.2 (intercalate_ne_nil hp us)
  | cons r rs =>
    rw [List.append_assoc, intercalate_append (by simp) (by simp), List.length_append,
      List.length_cons]
    omega

section Trimmed
variable {p : Bytes}

theorem Trimmed.last_ne (h : Trimmed absolute (ps ++ [p])) : p ≠ [] := by
  rintro rfl
  obtain hfiller | ⟨-, hdot⟩ := h ps [] rfl
  · simp [isFiller] at hfiller
  · cases ps with
    | nil => simp at hdot
    | cons q ps => simp at hdot

theorem parent?_render (hplain : Plain absolute (ps ++ [p]))
    (htrimmed : Trimmed absolute (ps ++ [p])) :
    parent? (render absolute (ps ++ [p])) = some (render absolute (trimPieces absolute ps)) := by
  rw [parent?_eq, isAbsolute_render hplain, relative_render hplain]
  simp [htrimmed.trimPieces_eq]

theorem ancestors_render (hplain : Plain absolute (ps ++ [p]))
    (htrimmed : Trimmed absolute (ps ++ [p]))
    (hroot : render absolute (trimPieces absolute ps) ≠ []) :
    ancestors (render absolute (ps ++ [p])) =
      render absolute (ps ++ [p]) :: ancestors (render absolute (trimPieces absolute ps)) := by
  have hlt := length_intercalate_lt htrimmed.last_ne (trimPieces_isPrefix absolute ps)
  have hshort : (render absolute (trimPieces absolute ps)).length <
      (render absolute (ps ++ [p])).length := by
    cases absolute with
    | false => exact hlt
    | true =>
      simp only [render, if_true, List.length_cons]
      omega
  rw [ancestors, parent?_render hplain htrimmed]
  dsimp only
  rw [dif_pos ⟨hshort, hroot⟩]

end Trimmed

end Parents
end Path
end ClassShape
