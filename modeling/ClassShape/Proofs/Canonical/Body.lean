import ClassShape.Proofs.Braces
import ClassShape.Proofs.Canonical.Members

/-! Canonical class bodies: the sweeps over a sequence of members find the attributes and the
methods in their order, whatever the interleaving. -/
namespace ClassShape

/-- Trimming takes off the blanks around a text that neither begins nor ends with one. -/
theorem Text.trim_padded {cs ds : List Char} {c d : Char} (hcons : cs = c :: ds)
    (hc : isBlank c = false) {es : List Char} (hconcat : cs = es ++ [d]) (hd : isBlank d = false) :
    trim (' ' :: (cs ++ [' '])) = cs := by
  have hspace : isBlank ' ' = true := by decide
  have hstart : (' ' :: (cs ++ [' '])).dropWhile isBlank = cs ++ [' '] := by
    simp [hcons, hspace, hc]
  rw [trim, hstart, trimEnd, hconcat]
  simp [hspace, hd]

namespace Member
variable {m : Member} {ms : List Member}

def core : Member → List Char
  | ofAttribute a => a.core
  | ofMethod m => m.core

def Canonical : Member → Prop
  | ofAttribute a => a.Canonical
  | ofMethod m => m.Canonical

theorem toList_source (m : Member) : m.source.toList = m.core ++ [' '] := by
  cases m with
  | ofAttribute a => exact a.toList_source
  | ofMethod m => exact m.toList_source

theorem core_head (h : m.Canonical) : ∃ c cs, m.core = c :: cs ∧ Text.isBlank c = false := by
  cases m with
  | ofAttribute a =>
    obtain ⟨c, cs, hcs, hc⟩ := opening_head a.modifier a.name h.type
    exact ⟨c, cs ++ [';'], by simp [core, Attribute.core, hcs], hc⟩
  | ofMethod m =>
    obtain ⟨c, cs, hcs, hc⟩ := opening_head m.modifier m.name h.returnType
    refine ⟨c, cs ++ '(' :: (m.list ++ [')', ' ', '{', ' ', '}']), ?_, hc⟩
    simp [core, Method.core, Method.head, hcs]

theorem core_last (m : Member) :
    ∃ cs c, m.core = cs ++ [c] ∧ isWordChar c = false ∧ Text.isBlank c = false := by
  cases m with
  | ofAttribute a => exact ⟨_, ';', rfl, by decide, by decide⟩
  | ofMethod m =>
    refine ⟨m.head ++ '(' :: (m.list ++ [')', ' ', '{', ' ']), '}', ?_, by decide, by decide⟩
    simp [core, Method.core]

theorem seam (m : Member) (cs : List Char) : Seam m.core cs := by
  obtain ⟨ds, c, h, hc, _⟩ := m.core_last
  rw [h]
  exact seam_of_last hc cs

theorem quiet_headers (h : m.Canonical) (pos : Nat) :
    Quiet Header.match? (Token.scanFrom pos m.core) := by
  cases m with
  | ofAttribute a => exact Attribute.quiet_core h Header.match?_announces (by decide) pos
  | ofMethod m => exact Method.quiet_headers h pos

theorem slash_notMem (h : m.Canonical) : '/' ∉ m.core := by
  cases m with
  | ofAttribute a =>
    simpa [core, Attribute.core] using notMem_opening h.type h.name (by decide) (by decide)
  | ofMethod m =>
    have hhead : '/' ∉ m.head := notMem_opening h.returnType h.name (by decide) (by decide)
    simp [core, Method.core, hhead, Method.notMem_list h]

theorem neutral (h : m.Canonical) : Neutral m.core := by
  cases m with
  | ofAttribute a =>
    apply neutral_of_no_brace
    · simpa [core, Attribute.core] using notMem_opening h.type h.name (by decide) (by decide)
    · simpa [core, Attribute.core] using notMem_opening h.type h.name (by decide) (by decide)
  | ofMethod m =>
    have hsplit : core (ofMethod m) =
        (m.head ++ '(' :: (m.list ++ [')', ' '])) ++ '{' :: ([' '] ++ ['}']) := by
      simp [core, Method.core]
    have hopen : '{' ∉ m.head := notMem_opening h.returnType h.name (by decide) (by decide)
    have hclose : '}' ∉ m.head := notMem_opening h.returnType h.name (by decide) (by decide)
    have hbraces : Neutral ('{' :: ([' '] ++ ['}'])) :=
      (neutral_of_no_brace (by decide) (by decide)).braced
    rw [hsplit]
    refine Neutral.append (neutral_of_no_brace ?_ ?_) hbraces
    · simp [hopen, Method.notMem_list h]
    · simp [hclose, Method.notMem_list h]

def body (ms : List Member) : List Char := [' '].intercalate (ms.map core)

theorem body_singleton (m : Member) : body [m] = m.core := by
  simp [body]

theorem body_cons_cons (m n : Member) (ms : List Member) :
    body (m :: n :: ms) = m.core ++ ' ' :: body (n :: ms) := by
  simp [body]

def inner (ms : List Member) : List Char := ' ' :: ms.flatMap fun m => m.core ++ [' ']

theorem inner_eq (m : Member) (ms : List Member) :
    inner (m :: ms) = ' ' :: (body (m :: ms) ++ [' ']) := by
  induction ms generalizing m with
  | nil => simp [inner, body_singleton]
  | cons n ms ih =>
    have hn := ih n
    simp only [inner, List.cons.injEq, true_and] at hn ⊢
    rw [List.flatMap_cons, hn, body_cons_cons]
    simp

theorem body_head (h : m.Canonical) (ms : List Member) :
    ∃ c cs, body (m :: ms) = c :: cs ∧ Text.isBlank c = false := by
  obtain ⟨c, cs, hcs, hc⟩ := core_head h
  cases ms with
  | nil => exact ⟨c, cs, by rw [body_singleton, hcs], hc⟩
  | cons n ms => exact ⟨c, _, by rw [body_cons_cons, hcs]; rfl, hc⟩

theorem body_last (m : Member) (ms : List Member) :
    ∃ cs c, body (m :: ms) = cs ++ [c] ∧ Text.isBlank c = false := by
  induction ms generalizing m with
  | nil =>
    obtain ⟨cs, c, hcs, -, hc⟩ := m.core_last
    exact ⟨cs, c, by rw [body_singleton, hcs], hc⟩
  | cons n ms ih =>
    obtain ⟨cs, c, hcs, hc⟩ := ih n
    exact ⟨m.core ++ ' ' :: cs, c, by simp [body_cons_cons, hcs], hc⟩

theorem trim_inner (h : ∀ m ∈ ms, m.Canonical) : Text.trim (inner ms) = body ms := by
  cases ms with
  | nil => rfl
  | cons m ms =>
    obtain ⟨c, cs, hcons, hc⟩ := body_head (h m (by simp)) ms
    obtain ⟨es, d, hconcat, hd⟩ := body_last m ms
    rw [inner_eq, Text.trim_padded hcons hc hconcat hd]

theorem neutral_inner (h : ∀ m ∈ ms, m.Canonical) : Neutral (inner ms) := by
  have hblank : Neutral [' '] := neutral_of_no_brace (by decide) (by decide)
  exact hblank.append (Neutral.flatMap fun m hm => (neutral (h m hm)).append hblank)

theorem slash_notMem_inner (h : ∀ m ∈ ms, m.Canonical) : '/' ∉ inner ms := by
  have hcore : ∀ m ∈ ms, '/' ∉ m.core := fun m hm => slash_notMem (h m hm)
  simpa [inner] using hcore

theorem seam_inner (ms : List Member) (cs : List Char) : Seam (inner ms) cs := by
  have hlast : ∃ ds, inner ms = ds ++ [' '] := by
    cases ms with
    | nil => exact ⟨[], rfl⟩
    | cons m ms => exact ⟨' ' :: body (m :: ms), by rw [inner_eq]; rfl⟩
  obtain ⟨ds, hds⟩ := hlast
  rw [hds]
  exact seam_of_last (by decide) cs

/-- No header begins inside a canonical class. -/
theorem quiet_inner (h : ∀ m ∈ ms, m.Canonical) (pos : Nat) :
    Quiet Header.match? (Token.scanFrom pos (inner ms)) := by
  rw [inner, Token.scanFrom_blank (by decide)]
  generalize pos + ' '.utf8Size = pos
  induction ms generalizing pos with
  | nil => simpa using Quiet.nil
  | cons m ms ih =>
    have hrest := ih fun n hn => h n (List.mem_cons_of_mem m hn)
    rw [List.flatMap_cons, List.append_assoc, Token.scanFrom_append _ (m.seam _),
      List.singleton_append, Token.scanFrom_blank (by decide)]
    exact (quiet_headers (h m (by simp)) _).append (hrest _)

theorem lexemes_body (ms : List Member) :
    lexemes (body ms) = ms.flatMap fun m => lexemes m.core := by
  induction ms with
  | nil => simp [body]
  | cons m ms ih =>
    cases ms with
    | nil => simp [body_singleton]
    | cons n ms =>
      rw [body_cons_cons, lexemes_append (m.seam _), lexemes_blank (by decide), ih]
      rfl

theorem attributes_body (h : ∀ m ∈ ms, m.Canonical) :
    Attribute.scan (body ms) = ms.filterMap attribute? := by
  have hscan : Attribute.scan (body ms) = sweep Attribute.match? (lexemes (body ms)) := rfl
  rw [hscan, lexemes_body, sweep]
  clear hscan
  induction ms with
  | nil => rfl
  | cons m ms ih =>
    have hm := h m (by simp)
    have hrest := ih fun n hn => h n (List.mem_cons_of_mem m hn)
    rw [List.flatMap_cons]
    cases m with
    | ofAttribute a =>
      have hne : lexemes a.core ≠ [] := by simp [Attribute.lexemes_core hm]
      rw [core, sweepFrom_match hne (Attribute.match?_core hm _), hrest]
      rfl
    | ofMethod m =>
      rw [core, Method.quiet_attributes hm, hrest]
      rfl

/-- One member under the sweep over methods, in the midst of a body. -/
theorem sweep_core (h : m.Canonical) (pre post : List Char) :
    sweepFrom (Method.match? (pre ++ (m.core ++ post))) 0
        (Token.scanFrom (Text.byteLength pre) (m.core ++ post)) =
      (m.method?.map Method.occurrence).toList ++
        sweepFrom (Method.match? (pre ++ (m.core ++ post))) 0
          (Token.scanFrom (Text.byteLength (pre ++ m.core)) post) := by
  cases m with
  | ofAttribute a =>
    have hseam : Seam a.core post := seam (ofAttribute a) post
    have hquiet := Attribute.quiet_core h (Method.match?_announces (pre ++ (a.core ++ post)))
      (by decide) (Text.byteLength pre)
    rw [core, Token.scanFrom_append _ hseam, hquiet, Text.byteLength_append]
    rfl
  | ofMethod m => exact Method.sweep_core h pre post

theorem sweep_body (h : ∀ m ∈ ms, m.Canonical) (pre : List Char) :
    sweepFrom (Method.match? (pre ++ body ms)) 0
        (Token.scanFrom (Text.byteLength pre) (body ms)) =
      (ms.filterMap method?).map Method.occurrence := by
  -- The text is fixed and the sweep moves on in it: what has been read goes over to `pre`.
  induction ms generalizing pre with
  | nil => simp [body, sweepFrom]
  | cons m ms ih =>
    have hm := h m (by simp)
    have hrest := ih fun n hn => h n (List.mem_cons_of_mem m hn)
    have hfirst : ((m :: ms).filterMap method?).map Method.occurrence =
        (m.method?.map Method.occurrence).toList ++
          (ms.filterMap method?).map Method.occurrence := by
      cases hmethod : m.method? <;> simp [hmethod]
    cases ms with
    | nil =>
      have hstep := sweep_core hm pre []
      simp only [List.append_nil, Token.scanFrom_nil, sweepFrom] at hstep
      rw [body_singleton, hstep, hfirst]
      simp
    | cons n ms =>
      have htext : pre ++ (m.core ++ ' ' :: body (n :: ms)) =
          (pre ++ m.core ++ [' ']) ++ body (n :: ms) := by
        simp
      have hpos : Text.byteLength (pre ++ m.core) + ' '.utf8Size =
          Text.byteLength (pre ++ m.core ++ [' ']) := by
        simp [Nat.add_assoc]
      rw [hfirst, body_cons_cons, sweep_core hm, Token.scanFrom_blank (by decide), hpos, htext,
        hrest]

end Member

theorem Method.occurrence_method {m : Method} (h : m.Canonical)
    (hc : ∀ p ∈ m.parameters, CommasEnclosed p.type) : m.occurrence.method = m := by
  have hlist := Parameter.scan_listSource fun p hp => ⟨h.parameters p hp, hc p hp⟩
  simp [Occurrence.method, occurrence, list, hlist]

theorem Member.methods_body {ms : List Member} (h : ∀ m ∈ ms, m.Canonical)
    (hc : ∀ m ∈ ms.filterMap method?, ∀ p ∈ m.parameters, CommasEnclosed p.type) :
    Method.scan (body ms) = ms.filterMap method? := by
  have hsweep : Method.occurrences (body ms) = (ms.filterMap method?).map Method.occurrence :=
    sweep_body h []
  have hid : ∀ m ∈ ms.filterMap method?,
      (Method.Occurrence.method ∘ Method.occurrence) m = id m := by
    intro m hm
    obtain ⟨n, hn, hnm⟩ := List.mem_filterMap.1 hm
    cases n with
    | ofAttribute a => simp [method?] at hnm
    | ofMethod k =>
      cases hnm
      exact Method.occurrence_method (h _ hn) (hc _ hm)
  rw [Method.scan, hsweep, List.map_map, List.map_congr_left hid, List.map_id]

end ClassShape
