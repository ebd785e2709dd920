import ClassShape.Proofs.ParameterList
import Mathlib.Data.List.Forall2

/-! Parameter lists are cut without loss. The fragments with their commas are the text, a comma is
cut at by what stands before it alone, and each parameter is spelled by the words of one fragment.
A text whose brackets are equal in number, in whatever order, hands on the depth it began with, so
what follows its comma is cut as if it stood alone. -/
namespace ClassShape.Parameter
variable {c : Char} {cs ds : List Char} {depth : Int}

def fragmentsFrom (depth : Int) (cs : List Char) : List (List Char) :=
  (cutFrom depth cs).1 :: (cutFrom depth cs).2

theorem fragments_eq (cs : List Char) : fragments cs = fragmentsFrom 0 cs := rfl

theorem fragmentsFrom_comma (h : depth ≤ 0) (cs : List Char) :
    fragmentsFrom depth (',' :: cs) = [] :: fragmentsFrom depth cs := by
  simp [fragmentsFrom, cutFrom, h, depthStep]

/-- A character that is no cut goes to the first fragment. -/
theorem fragmentsFrom_cons (h : ¬ (c = ',' ∧ depth ≤ 0)) (cs : List Char) :
    ∃ f fs, fragmentsFrom (depth + depthStep c) cs = f :: fs ∧
      fragmentsFrom depth (c :: cs) = (c :: f) :: fs :=
  ⟨_, _, rfl, by simp only [fragmentsFrom, cutFrom, if_neg h]⟩

theorem intercalate_cons_head (c : Char) (f : List Char) (fs : List (List Char)) :
    [','].intercalate ((c :: f) :: fs) = c :: [','].intercalate (f :: fs) := by
  cases fs with
  | nil => simp
  | cons g gs => simp [List.intercalate_cons_cons]

theorem intercalate_nil_head {fs : List (List Char)} (h : fs ≠ []) :
    [','].intercalate ([] :: fs) = ',' :: [','].intercalate fs := by
  cases fs with
  | nil => exact absurd rfl h
  | cons g gs => simp [List.intercalate_cons_cons]

theorem intercalate_fragmentsFrom (depth : Int) (cs : List Char) :
    [','].intercalate (fragmentsFrom depth cs) = cs := by
  induction cs generalizing depth with
  | nil => simp [fragmentsFrom, cutFrom]
  | cons c cs ih =>
    by_cases hcut : c = ',' ∧ depth ≤ 0
    · obtain ⟨rfl, hle⟩ := hcut
      rw [fragmentsFrom_comma hle, intercalate_nil_head (by simp [fragmentsFrom]), ih]
    · obtain ⟨f, fs, hrest, hall⟩ := fragmentsFrom_cons hcut cs
      rw [hall, intercalate_cons_head, ← hrest, ih]

/-- What follows a comma outside brackets is cut at the depth reached there. -/
theorem fragmentsFrom_append (h : depth + net cs ≤ 0) (ds : List Char) :
    fragmentsFrom depth (cs ++ ',' :: ds) =
      fragmentsFrom depth cs ++ fragmentsFrom (depth + net cs) ds := by
  induction cs generalizing depth with
  | nil =>
    rw [net_nil, Int.add_zero] at h ⊢
    rw [List.nil_append, fragmentsFrom_comma h]
    rfl
  | cons c cs ih =>
    rw [net_cons, ← Int.add_assoc] at h ⊢
    have hrest := ih h
    by_cases hcut : c = ',' ∧ depth ≤ 0
    · obtain ⟨rfl, hle⟩ := hcut
      have hstep : depth + depthStep ',' = depth := by simp [depthStep]
      rw [hstep] at hrest ⊢
      rw [List.cons_append, fragmentsFrom_comma hle, fragmentsFrom_comma hle, hrest,
        List.cons_append]
    · obtain ⟨f, fs, hf, hall⟩ := fragmentsFrom_cons hcut (cs ++ ',' :: ds)
      obtain ⟨g, gs, hg, hhead⟩ := fragmentsFrom_cons hcut cs
      rw [hf, hg, List.cons_append, List.cons.injEq] at hrest
      rw [List.cons_append, hall, hhead, hrest.1, hrest.2, List.cons_append]

def CutBetween (fragments : List (List Char)) (before after : List Char) : Prop :=
  ∃ left right, left ≠ [] ∧ right ≠ [] ∧ fragments = left ++ right ∧
    [','].intercalate left = before ∧ [','].intercalate right = after

/-- Between two fragments the depth is zero or less. -/
theorem net_of_cut {left right : List (List Char)} (hleft : left ≠ []) (hright : right ≠ [])
    (h : fragmentsFrom depth cs = left ++ right) :
    depth + net ([','].intercalate left) ≤ 0 := by
  induction cs generalizing depth left with
  | nil =>
    have hlength := congrArg List.length h
    have hpos := List.length_pos_iff.2 hleft
    have hpos' := List.length_pos_iff.2 hright
    simp only [fragmentsFrom, cutFrom, List.length_append, List.length_cons,
      List.length_nil] at hlength
    omega
  | cons c cs ih =>
    obtain ⟨first, others, rfl⟩ := List.exists_cons_of_ne_nil hleft
    by_cases hcut : c = ',' ∧ depth ≤ 0
    · obtain ⟨rfl, hle⟩ := hcut
      rw [fragmentsFrom_comma hle, List.cons_append, List.cons.injEq] at h
      obtain ⟨rfl, hrest⟩ := h
      by_cases hothers : others = []
      · simpa [hothers] using hle
      · rw [intercalate_nil_head hothers]
        simpa [depthStep] using ih hothers hrest
    · obtain ⟨f, fs, hf, hall⟩ := fragmentsFrom_cons hcut cs
      rw [hall, List.cons_append, List.cons.injEq] at h
      obtain ⟨rfl, rfl⟩ := h
      have hstep := ih (List.cons_ne_nil f others) hf
      rw [intercalate_cons_head, net_cons]
      omega

theorem cutBetween_iff (before after : List Char) :
    CutBetween (fragments (before ++ ',' :: after)) before after ↔
      before.count '<' ≤ before.count '>' := by
  have hnet := net_eq_count before
  constructor
  · intro hcut
    obtain ⟨left, right, hleft, hright, hall, rfl, -⟩ := hcut
    have hle := net_of_cut hleft hright hall
    omega
  · intro hle
    have hdepth : 0 + net before ≤ 0 := by omega
    have happend := fragmentsFrom_append hdepth after
    exact ⟨_, _, by simp [fragmentsFrom], by simp [fragmentsFrom], happend,
      intercalate_fragmentsFrom 0 before, intercalate_fragmentsFrom _ after⟩

theorem scan_append (h : cs.count '<' = cs.count '>') (ds : List Char) :
    scan (cs ++ ',' :: ds) = scan cs ++ scan ds := by
  have hnet : 0 + net cs = 0 := by
    rw [net_eq_count]
    omega
  have happend := fragmentsFrom_append (Int.le_of_eq hnet) ds
  rw [hnet] at happend
  rw [scan, fragments_eq, happend, List.filterMap_append]
  rfl

/-- The words of the fragment are those of the type and then the name, a `final` before them set
aside. -/
def Spells (fragment : List Char) (p : Parameter) : Prop :=
  ∃ lead type, (lead = ["final"] ∨ lead = [] ∧ type.head? ≠ some "final") ∧ type ≠ [] ∧
    (Text.words fragment).map String.ofList = lead ++ type ++ [p.name] ∧
    p.type = " ".intercalate type

theorem dropFinal_eq_iff {ws us : List String} :
    dropFinal ws = us ↔ ws = "final" :: us ∨ ws = us ∧ us.head? ≠ some "final" := by
  by_cases h : ws.head? = some "final"
  · obtain ⟨vs, rfl⟩ := List.head?_eq_some_iff.1 h
    simp only [dropFinal, List.cons.injEq, true_and]
    refine ⟨Or.inl, fun hws => hws.resolve_right fun hus => ?_⟩
    exact hus.2 (hus.1 ▸ h)
  · rw [dropFinal_of_head h]
    constructor
    · intro hws
      exact Or.inr ⟨hws, hws ▸ h⟩
    · intro hws
      exact (hws.resolve_left fun hfinal => h (by simp [hfinal])).1

theorem read_eq_parameter_iff {f : List Char} {p : Parameter} :
    read f = .parameter p ↔ Spells f p := by
  rw [read, ofWords_eq_parameter_iff]
  constructor
  · intro hread
    obtain ⟨type, hne, hws, htype⟩ := hread
    cases dropFinal_eq_iff.1 hws with
    | inl hfinal => exact ⟨["final"], type, Or.inl rfl, hne, by simpa using hfinal, htype⟩
    | inr hplain =>
      rw [List.head?_append_of_ne_nil _ hne] at hplain
      exact ⟨[], type, Or.inr ⟨rfl, hplain.2⟩, hne, hplain.1, htype⟩
  · intro hspells
    obtain ⟨lead, type, hlead, hne, hws, htype⟩ := hspells
    refine ⟨type, hne, dropFinal_eq_iff.2 ?_, htype⟩
    cases hlead with
    | inl hfinal => exact Or.inl (by simpa [hfinal] using hws)
    | inr hplain =>
      rw [hplain.1, List.nil_append] at hws
      exact Or.inr ⟨hws, by rw [List.head?_append_of_ne_nil _ hne]; exact hplain.2⟩

/-- The fragments make up the text and are cut at the commas outside brackets; lists are read one
by one where the first has as many opening as closing brackets; and the parameters are those that
the fragments spell, in their order and one for each at most. -/
theorem parameters_without_loss :
    (∀ text, [','].intercalate (fragments text) = text) ∧
    (∀ before after, CutBetween (fragments (before ++ ',' :: after)) before after ↔
      before.count '<' ≤ before.count '>') ∧
    (∀ a b : String, a.toList.count '<' = a.toList.count '>' →
      parameters (a ++ "," ++ b) = parameters a ++ parameters b) ∧
    ∀ text : String, ∃ readings : List (Option Parameter),
      List.Forall₂ (fun f r => ∀ p, r = some p ↔ Spells f p) (fragments text.toList) readings ∧
      parameters text = readings.filterMap id := by
  refine ⟨intercalate_fragmentsFrom 0, cutBetween_iff, ?_, ?_⟩
  · intro a b hcount
    have hjoin : (a ++ "," ++ b).toList = a.toList ++ ',' :: b.toList := by simp
    rw [parameters, hjoin, scan_append hcount]
    rfl
  · intro text
    refine ⟨(fragments text.toList).map fun f => (read f).parameter?, ?_, ?_⟩
    · rw [List.forall₂_map_right_iff, List.forall₂_same]
      intro f _ p
      rw [Reading.parameter?_eq_some_iff, read_eq_parameter_iff]
    · rw [List.filterMap_map]
      rfl

/-- A bracket closed before one is opened, a `final`, commas inside brackets, and a word alone. -/
theorem parameters_oddLists :
    "int x>,final < é".toList.count '<' = "int x>,final < é".toList.count '>' ∧
    parameters ("int x>,final < é" ++ "," ++ "Map<K,V> m,y") =
      [⟨"int", "x>"⟩, ⟨"<", "é"⟩, ⟨"Map<K,V>", "m"⟩] := by
  have hcount : "int x>,final < é".toList.count '<' = "int x>,final < é".toList.count '>' := by
    decide
  obtain ⟨_, _, happend, _⟩ := parameters_without_loss
  exact ⟨hcount, (happend _ "Map<K,V> m,y" hcount).trans (by decide +kernel)⟩

end ClassShape.Parameter
