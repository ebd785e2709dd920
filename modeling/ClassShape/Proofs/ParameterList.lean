import ClassShape.Member.Parameter
import Mathlib.Data.List.Basic
import Mathlib.Data.List.TakeWhile

/-! Cutting a parameter list. The running depth of angle brackets is never reset, so where a list
is cut depends on all that stands before; a fragment whose brackets balance leaves the depth as it
found it. -/
namespace ClassShape

namespace Text
variable {c : Char} {cs : List Char}

@[simp] theorem words_nil : words [] = [] := by
  rw [words]

theorem words_blank (h : isBlank c = true) (cs : List Char) : words (c :: cs) = words cs := by
  rw [words, if_pos h]

theorem words_run {w : List Char} (hne : w ≠ []) (hw : ∀ c ∈ w, isBlank c = false)
    (hcs : ∀ c, cs.head? = some c → isBlank c = true) : words (w ++ cs) = w :: words cs := by
  cases w with
  | nil => exact absurd rfl hne
  | cons c w =>
    have hrun : ∀ d ∈ w, (!isBlank d) = true := by
      intro d hd
      simp [hw d (List.mem_cons_of_mem c hd)]
    have hstop : cs.takeWhile (!isBlank ·) = [] ∧ cs.dropWhile (!isBlank ·) = cs := by
      cases cs with
      | nil => simp
      | cons d cs => simp [hcs d rfl]
    rw [List.cons_append, words, if_neg (by simp [hw c (by simp)]),
      List.takeWhile_append_of_pos hrun, List.dropWhile_append_of_pos hrun, hstop.1, hstop.2,
      List.append_nil]

/-- Words with single blanks between them are read back. -/
theorem words_intercalate {ws : List (List Char)}
    (h : ∀ w ∈ ws, w ≠ [] ∧ ∀ c ∈ w, isBlank c = false) : words ([' '].intercalate ws) = ws := by
  induction ws with
  | nil => simp
  | cons w ws ih =>
    obtain ⟨hne, hw⟩ := h w (by simp)
    have hrest := ih fun v hv => h v (List.mem_cons_of_mem w hv)
    cases ws with
    | nil => simpa using words_run hne hw (by simp : ∀ c, ([] : List Char).head? = some c → _)
    | cons v ws =>
      have hblank : ∀ c, (' ' :: [' '].intercalate (v :: ws)).head? = some c →
          isBlank c = true := by
        intro c hc
        obtain rfl : ' ' = c := by simpa using hc
        decide
      rw [List.intercalate_cons_cons, List.append_assoc, List.singleton_append,
        words_run hne hw hblank, words_blank (by decide), hrest]

theorem toList_joined (ws : List String) :
    (" ".intercalate ws).toList = [' '].intercalate (ws.map String.toList) := by
  rw [String.toList_intercalate]
  rfl

theorem words_joined {ws : List String}
    (h : ∀ w ∈ ws, w ≠ "" ∧ ∀ c ∈ w.toList, isBlank c = false) :
    (words (" ".intercalate ws).toList).map String.ofList = ws := by
  have hwords : ∀ w ∈ ws.map String.toList, w ≠ [] ∧ ∀ c ∈ w, isBlank c = false := by
    intro w hw
    obtain ⟨v, hv, rfl⟩ := List.mem_map.1 hw
    exact ⟨by simpa using (h v hv).1, (h v hv).2⟩
  rw [toList_joined, words_intercalate hwords]
  simp

/-- The words of a text are all of it but the blanks. -/
theorem flatten_words (cs : List Char) : (words cs).flatten = cs.filter (!isBlank ·) := by
  fun_induction words cs with
  | case1 => rfl
  | case2 c cs hc ih => simp [hc, ih]
  | case3 c cs hc ih =>
    have hsplit := List.takeWhile_append_dropWhile (p := (!isBlank ·)) (l := cs)
    have hrun : (cs.takeWhile (!isBlank ·)).filter (!isBlank ·) = cs.takeWhile (!isBlank ·) :=
      List.filter_eq_self.2 fun d hd => List.mem_takeWhile_imp (p := (!isBlank ·)) hd
    have hfilter := congrArg (List.filter (!isBlank ·)) hsplit
    rw [List.filter_append, hrun] at hfilter
    rw [List.flatten_cons, ih, List.cons_append, List.filter_cons_of_pos (by simp [hc]), hfilter]

end Text

namespace Parameter
variable {c : Char} {cs ds : List Char} {depth : Int}

def net : List Char → Int
  | [] => 0
  | c :: cs => depthStep c + net cs

@[simp] theorem net_nil : net [] = 0 := rfl

@[simp] theorem net_cons (c : Char) (cs : List Char) : net (c :: cs) = depthStep c + net cs :=
  rfl

theorem net_eq_count (cs : List Char) : net cs = (cs.count '<' : Int) - cs.count '>' := by
  induction cs with
  | nil => rfl
  | cons c cs ih =>
    by_cases hlt : c = '<'
    · subst c
      simp [depthStep, ih]
      omega
    · by_cases hgt : c = '>'
      · subst c
        simp [depthStep, ih]
        omega
      · simp [depthStep, hlt, hgt, ih]

/-- Each comma of the text is inside brackets, when it begins at the given depth. -/
def Enclosed (depth : Int) (cs : List Char) : Prop :=
  ∀ before after, cs = before ++ ',' :: after → 0 < depth + net before

theorem enclosed_of_notMem (h : ',' ∉ cs) : Enclosed depth cs := by
  intro before after hcs
  simp [hcs] at h

theorem enclosed_cons :
    Enclosed depth (c :: cs) ↔ (c = ',' → 0 < depth) ∧ Enclosed (depth + depthStep c) cs := by
  constructor
  · intro h
    refine ⟨fun hc => by simpa using h [] cs (by simp [hc]), ?_⟩
    intro before after hcs
    simpa [Int.add_assoc] using h (c :: before) after (by rw [hcs, List.cons_append])
  · intro hparts before after h
    obtain ⟨hc, hcs⟩ := hparts
    cases before with
    | nil => simpa using hc (List.cons.inj h).1
    | cons d before =>
      obtain ⟨rfl, hrest⟩ := List.cons.inj h
      simpa [Int.add_assoc] using hcs before after hrest

instance decidableEnclosed : (depth : Int) → (cs : List Char) → Decidable (Enclosed depth cs)
  | _, [] => isTrue (enclosed_of_notMem List.not_mem_nil)
  | depth, c :: cs =>
    have := decidableEnclosed (depth + depthStep c) cs
    decidable_of_iff' _ enclosed_cons

theorem enclosed_append :
    Enclosed depth (cs ++ ds) ↔ Enclosed depth cs ∧ Enclosed (depth + net cs) ds := by
  induction cs generalizing depth with
  | nil => simp [enclosed_of_notMem]
  | cons c cs ih => simp [enclosed_cons, ih, and_assoc, Int.add_assoc]

theorem Enclosed.mono {depth' : Int} (h : Enclosed depth cs) (hle : depth ≤ depth') :
    Enclosed depth' cs := by
  intro before after hcs
  have hlt := h before after hcs
  omega

/-- A blank is neither a comma nor a bracket. -/
theorem of_isBlank (h : Text.isBlank c = true) : c ≠ ',' ∧ depthStep c = 0 := by
  have hne : ∀ d, Text.isBlank d = false → c ≠ d := fun _ => Text.ne_of_isBlank h
  simp [depthStep, hne ',' (by decide), hne '<' (by decide), hne '>' (by decide)]

theorem enclosed_filter : Enclosed depth (cs.filter (!Text.isBlank ·)) ↔ Enclosed depth cs := by
  induction cs generalizing depth with
  | nil => rfl
  | cons c cs ih =>
    cases hc : Text.isBlank c with
    | false => simp [hc, enclosed_cons, ih]
    | true =>
      obtain ⟨hcomma, hstep⟩ := of_isBlank hc
      simp [hc, enclosed_cons, ih, hcomma, hstep]

theorem cutFrom_append (h : Enclosed depth cs) (ds : List Char) :
    cutFrom depth (cs ++ ds) =
      (cs ++ (cutFrom (depth + net cs) ds).1, (cutFrom (depth + net cs) ds).2) := by
  induction cs generalizing depth with
  | nil => simp
  | cons c cs ih =>
    obtain ⟨hcomma, htail⟩ := enclosed_cons.1 h
    have hno : ¬ (c = ',' ∧ depth ≤ 0) := fun ⟨hc, hle⟩ => by
      have hpos := hcomma hc
      omega
    simp only [List.cons_append, cutFrom, ih htail, if_neg hno, net_cons, Int.add_assoc]

theorem fragments_enclosed (h : Enclosed 0 cs) : fragments cs = [cs] := by
  have hcut := cutFrom_append h []
  rw [List.append_nil] at hcut
  simp [fragments, hcut, cutFrom]

theorem fragments_comma (h : Enclosed 0 cs) (hnet : net cs = 0) (ds : List Char) :
    fragments (cs ++ ',' :: ds) = cs :: fragments ds := by
  simp [fragments, cutFrom_append h, hnet, cutFrom, depthStep]

theorem fragments_blank (hb : Text.isBlank c = true) (cs : List Char) :
    fragments (c :: cs) = (c :: (cutFrom 0 cs).1) :: (cutFrom 0 cs).2 := by
  obtain ⟨hcomma, hstep⟩ := of_isBlank hb
  simp [fragments, cutFrom, hcomma, hstep]

theorem read_blank (hb : Text.isBlank c = true) (cs : List Char) : read (c :: cs) = read cs := by
  rw [read, Text.words_blank hb, read]

theorem scan_blank (hb : Text.isBlank c = true) (cs : List Char) : scan (c :: cs) = scan cs := by
  rw [scan, fragments_blank hb, List.filterMap_cons, read_blank hb, scan, fragments,
    List.filterMap_cons]

theorem scan_enclosed (h : Enclosed 0 cs) : scan cs = (read cs).parameter?.toList := by
  rw [scan, fragments_enclosed h, List.filterMap_cons]
  cases (read cs).parameter? <;> rfl

theorem scan_comma (h : Enclosed 0 cs) (hnet : net cs = 0) (ds : List Char) :
    scan (cs ++ ',' :: ds) = (read cs).parameter?.toList ++ scan ds := by
  rw [scan, fragments_comma h hnet, List.filterMap_cons, scan]
  cases (read cs).parameter? <;> rfl

/-- No fragment has a comma outside brackets. -/
theorem cutFrom_enclosed (depth : Int) (cs : List Char) :
    Enclosed depth (cutFrom depth cs).1 ∧ ∀ f ∈ (cutFrom depth cs).2, Enclosed 0 f := by
  induction cs generalizing depth with
  | nil => simp [cutFrom, enclosed_of_notMem]
  | cons c cs ih =>
    obtain ⟨hhead, htail⟩ := ih (depth + depthStep c)
    by_cases hcut : c = ',' ∧ depth ≤ 0
    · -- The next fragment is counted from a depth of zero or less, and needs all the more brackets.
      obtain ⟨rfl, hle⟩ := hcut
      have hfirst : Enclosed 0 (cutFrom (depth + depthStep ',') cs).1 :=
        hhead.mono (by simpa [depthStep] using hle)
      simpa [cutFrom, hle, enclosed_of_notMem, hfirst] using htail
    · have hcomma : c = ',' → 0 < depth := fun hc => Int.not_le.1 fun hle => hcut ⟨hc, hle⟩
      simp only [cutFrom, if_neg hcut]
      exact ⟨enclosed_cons.2 ⟨hcomma, hhead⟩, htail⟩

theorem enclosed_of_mem_fragments {f : List Char} (h : f ∈ fragments cs) : Enclosed 0 f := by
  obtain ⟨hhead, htail⟩ := cutFrom_enclosed 0 cs
  rcases List.mem_cons.1 h with rfl | hf
  · exact hhead
  · exact htail f hf

theorem dropFinal_of_head {ws : List String} (h : ws.head? ≠ some "final") : dropFinal ws = ws := by
  unfold dropFinal
  split
  · simp at h
  · rfl

theorem ofWords_concat {ws : List String} (hne : ws ≠ []) (name : String) :
    ofWords (ws ++ [name]) = .parameter ⟨" ".intercalate ws, name⟩ := by
  simp [ofWords, hne]

theorem ofWords_eq_parameter_iff {ws : List String} {p : Parameter} :
    ofWords ws = .parameter p ↔
      ∃ us, us ≠ [] ∧ ws = us ++ [p.name] ∧ p.type = " ".intercalate us := by
  constructor
  · intro h
    unfold ofWords at h
    split at h
    · cases h
    · rename_i name hlast
      split at h
      · cases h
      · rename_i hne
        cases h
        exact ⟨ws.dropLast, by simpa using hne,
          (List.dropLast_append_getLast? name hlast).symm, rfl⟩
  · intro h
    obtain ⟨us, hne, rfl, htype⟩ := h
    rw [ofWords_concat hne, ← htype]

theorem Reading.parameter?_eq_some_iff {r : Reading} {p : Parameter} :
    r.parameter? = some p ↔ r = .parameter p := by
  cases r <;> simp [Reading.parameter?]

theorem enclosed_dropFinal {ws : List String} (h : Enclosed 0 (ws.flatMap String.toList)) :
    Enclosed 0 ((dropFinal ws).flatMap String.toList) := by
  unfold dropFinal
  split
  · have hnet : net "final".toList = 0 := by decide
    rw [List.flatMap_cons, enclosed_append, hnet, Int.add_zero] at h
    exact h.2
  · exact h

theorem filter_intercalate (xs : List (List Char)) :
    ([' '].intercalate xs).filter (!Text.isBlank ·) = xs.flatten.filter (!Text.isBlank ·) := by
  have hblank : Text.isBlank ' ' = true := by decide
  induction xs with
  | nil => rfl
  | cons x xs ih =>
    cases xs with
    | nil => simp
    | cons y ys =>
      rw [List.intercalate_cons_cons, List.filter_append, ih]
      simp [hblank]

/-- The blanks of a fragment do not count, nor does a leading `final`, and the name stands last. -/
theorem enclosed_type {f : List Char} {p : Parameter} (hf : Enclosed 0 f)
    (h : read f = .parameter p) : Enclosed 0 p.type.toList := by
  obtain ⟨us, -, hus, htype⟩ := ofWords_eq_parameter_iff.1 h
  have hwords : Enclosed 0 (((Text.words f).map String.ofList).flatMap String.toList) := by
    have hflat : ((Text.words f).map String.ofList).flatMap String.toList =
        f.filter (!Text.isBlank ·) := by
      simp [List.flatMap_map, ← Text.flatten_words]
    rw [hflat]
    exact enclosed_filter.2 hf
  have hall := enclosed_dropFinal hwords
  rw [hus, List.flatMap_append] at hall
  rw [htype, Text.toList_joined, ← enclosed_filter, filter_intercalate, enclosed_filter]
  exact (enclosed_append.1 hall).1

theorem enclosed_of_mem_scan {p : Parameter} (h : p ∈ scan cs) : Enclosed 0 p.type.toList := by
  obtain ⟨f, hf, hp⟩ := List.mem_filterMap.1 h
  exact enclosed_type (enclosed_of_mem_fragments hf) (Reading.parameter?_eq_some_iff.1 hp)

end Parameter
end ClassShape
