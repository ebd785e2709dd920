import ClassShape.Proofs.Canonical.Source
import ClassShape.Proofs.Fragments
import ClassShape.Proofs.Matching
import ClassShape.Proofs.Methods
import ClassShape.Proofs.Pooling

/-! What can stand in a record. Names and types of members are words of the source; a list of
parameters ends at the first closing parenthesis and is cut into words at its blanks. So whatever a
source holds, no blank but a single space, and no parenthesis that closes, gets into a record. -/
namespace ClassShape

structure IsListWord (s : String) : Prop where
  nonempty : s ≠ ""
  chars : ∀ c ∈ s.toList, Text.isBlank c = false ∧ c ≠ ')'

structure Parameter.Clean (p : Parameter) : Prop where
  type : ∃ ws : List String, ws ≠ [] ∧ p.type = " ".intercalate ws ∧ ∀ w ∈ ws, IsListWord w
  name : IsListWord p.name

structure Method.Clean (m : Method) : Prop where
  returnType : IsWordType m.returnType
  name : IsName m.name
  parameters : ∀ p ∈ m.parameters, p.Clean

structure ClassRecord.Clean (r : ClassRecord) : Prop where
  name : IsName r.name
  parent : ∀ p ∈ r.parent, IsName p
  attributes : ∀ a ∈ r.attributes, a.Canonical
  methods : ∀ m ∈ r.methods, m.Clean

namespace Text

theorem ne_nil_of_mem_words {cs w : List Char} (h : w ∈ words cs) : w ≠ [] := by
  fun_induction words cs with
  | case1 => simp at h
  | case2 c cs _ ih => exact ih h
  | case3 c cs _ ih =>
    cases List.mem_cons.1 h with
    | inl he => simp [he]
    | inr hrest => exact ih hrest

theorem of_mem_words {cs w : List Char} {c : Char} (h : w ∈ words cs) (hc : c ∈ w) :
    c ∈ cs ∧ isBlank c = false := by
  have hflat : c ∈ (words cs).flatten := List.mem_flatten.2 ⟨w, h, hc⟩
  simpa [flatten_words] using hflat

end Text

namespace Parameter
variable {list : List Char}

theorem mem_of_mem_fragments {f : List Char} {c : Char} (hf : f ∈ fragments list) (hc : c ∈ f) :
    c ∈ list := by
  have hall : ∀ fs : List (List Char), f ∈ fs → c ∈ [','].intercalate fs := by
    intro fs hmem
    induction fs with
    | nil => cases hmem
    | cons g gs ih =>
      cases gs with
      | nil => simpa [List.mem_singleton.1 hmem] using hc
      | cons g' gs =>
        rw [List.intercalate_cons_cons, List.mem_append, List.mem_append]
        cases List.mem_cons.1 hmem with
        | inl he => exact Or.inl (Or.inl (he ▸ hc))
        | inr hrest => exact Or.inr (ih hrest)
  exact intercalate_fragmentsFrom 0 list ▸ hall _ hf

/-- The words of a fragment are words of the list, if it is not closed before its end. -/
theorem isListWord_of_mem_words {f : List Char} {w : String} (hlist : ')' ∉ list)
    (hf : f ∈ fragments list) (hw : w ∈ (Text.words f).map String.ofList) : IsListWord w := by
  obtain ⟨v, hv, rfl⟩ := List.mem_map.1 hw
  refine ⟨by simpa using Text.ne_nil_of_mem_words hv, fun c hc => ?_⟩
  rw [String.toList_ofList] at hc
  obtain ⟨hmem, hblank⟩ := Text.of_mem_words hv hc
  exact ⟨hblank, fun he => hlist (he ▸ mem_of_mem_fragments hf hmem)⟩

theorem clean_of_mem_scan {p : Parameter} (hlist : ')' ∉ list) (h : p ∈ scan list) : p.Clean := by
  obtain ⟨f, hf, hread⟩ := List.mem_filterMap.1 h
  obtain ⟨lead, type, -, hne, hwords, htype⟩ :=
    read_eq_parameter_iff.1 (Reading.parameter?_eq_some_iff.1 hread)
  have hword : ∀ w ∈ lead ++ type ++ [p.name], IsListWord w := fun w hw =>
    isListWord_of_mem_words hlist hf (hwords ▸ hw)
  exact ⟨⟨type, hne, htype, fun w hw => hword w (by simp [hw])⟩, hword p.name (by simp)⟩

end Parameter

theorem isName_of_mem_lexemes {cs : List Char} {w : String} (h : .word w ∈ lexemes cs)
    (hid : isIdentifier w = true) : IsName w :=
  ⟨(run_of_word_mem_lexemes h).1, List.all_eq_true.1 hid⟩

theorem isWordType_of_mem_lexemes {cs : List Char} {w : String} (h : .word w ∈ lexemes cs)
    (hmodifier : Modifier.ofWord? w = none) (hkeyword : w ∉ statementKeywords) : IsWordType w := by
  obtain ⟨hne, hchars⟩ := run_of_word_mem_lexemes h
  refine ⟨hne, hchars, fun hm => ?_, hkeyword⟩
  simp only [List.mem_cons, List.not_mem_nil, or_false] at hm
  obtain rfl | rfl | rfl := hm
  · cases hmodifier
  · cases hmodifier
  · cases hmodifier

theorem Attribute.clean_of_mem {body : String} {a : Attribute} (h : a ∈ attributes body) :
    a.Canonical := by
  rw [attributes_eq_filterMap] at h
  obtain ⟨i, -, hi⟩ := List.mem_filterMap.1 h
  have hat := at?_eq_some_iff.1 hi
  exact ⟨isWordType_of_mem_lexemes (List.mem_of_getElem? hat.type) hat.type_notModifier
      hat.type_notKeyword,
    isName_of_mem_lexemes (List.mem_of_getElem? hat.name) hat.name_isIdentifier⟩

/-- Of two tokens the one that starts first stands first. -/
theorem Token.lt_of_start_lt {cs : List Char} {i j : Nat} {s t : Token}
    (hs : (scan cs)[i]? = some s) (ht : (scan cs)[j]? = some t) (h : s.start < t.start) : i < j := by
  by_contra hle
  obtain ⟨hi, rfl⟩ := List.getElem?_eq_some_iff.1 hs
  obtain ⟨hj, rfl⟩ := List.getElem?_eq_some_iff.1 ht
  cases Nat.lt_or_eq_of_le (Nat.le_of_not_lt hle) with
  | inl hlt =>
    have hstop : (scan cs)[j].stop ≤ (scan cs)[i].start :=
      List.pairwise_iff_getElem.1 (pairwise_scanFrom 0 cs) j i hj hi hlt
    rw [stop] at hstop
    omega
  | inr he =>
    subst he
    exact absurd h (Nat.lt_irrefl _)

namespace Method
variable {body : List Char} {i c : Nat}

/-- A closing parenthesis inside the list would be a token, and would have closed it. -/
theorem Occurs.closer_notMem (h : Occurs (lexemes body) i c) {paren stop : Nat} {list : List Char}
    (hparen : (Token.scan body)[i + 2]? = some ⟨.mark '(', paren⟩)
    (hstop : (Token.scan body)[c]? = some ⟨.mark ')', stop⟩)
    (hlist : Text.Between '(' ')' paren stop body list) : ')' ∉ list := by
  intro hmem
  obtain ⟨u, v, rfl⟩ := List.append_of_mem hmem
  obtain ⟨before, after, hbody, hbefore, hafter⟩ := hlist
  have hstands : Text.StandsAt [')'] 0 (paren + '('.utf8Size + Text.byteLength u) body :=
    ⟨before ++ '(' :: u, v ++ ')' :: after, by simp [hbody], by simp [← hbefore]; omega⟩
  obtain ⟨j, hj⟩ := List.mem_iff_getElem?.1
    (Token.mem_of_standsAt (by decide) (by decide) hstands)
  have hpos := '('.utf8Size_pos
  have hpos' := ')'.utf8Size_pos
  have hlow := Token.lt_of_start_lt hparen hj (by simp only; omega)
  have hhigh := Token.lt_of_start_lt hj hstop (by
    simp only [Text.byteLength_append, Text.byteLength_cons] at hafter ⊢
    omega)
  exact h.first j hlow hhigh (Token.getElem?_map_lexeme.2 ⟨_, hj⟩)

theorem clean_of_mem {body : String} {m : Method} (h : m ∈ methods body) : m.Clean := by
  rw [methods_eq_found] at h
  obtain ⟨⟨⟨i, c⟩, m⟩, hfound, rfl⟩ := List.mem_map.1 h
  have hoccurs := (mem_found.1 (List.mem_map_of_mem hfound)).1
  have hreads := reads_of_mem_found hfound
  obtain ⟨type, htype, hmodifier, hkeyword⟩ := hoccurs.type
  obtain ⟨name, hname, hid⟩ := hoccurs.name
  obtain ⟨paren, stop, list, hparen, hstop, hlist, hparameters⟩ := hreads.parameters
  obtain rfl : type = m.returnType := by simpa using htype.symm.trans hreads.returnType
  obtain rfl : name = m.name := by simpa using hname.symm.trans hreads.name
  have hopen := hoccurs.closer_notMem hparen hstop hlist
  refine ⟨isWordType_of_mem_lexemes (List.mem_of_getElem? htype) hmodifier hkeyword,
    isName_of_mem_lexemes (List.mem_of_getElem? hname) hid, fun p hp => ?_⟩
  rw [hparameters, ClassShape.parameters, String.toList_ofList] at hp
  exact Parameter.clean_of_mem_scan hopen hp

end Method

theorem Header.clean_of_mem {source : List Char} {h : Header} (hmem : h ∈ headers source) :
    IsName h.name ∧ ∀ p ∈ h.parent, IsName p := by
  rw [headers_eq] at hmem
  obtain ⟨i, -, hi⟩ := List.mem_filterMap.1 hmem
  have hword : ∀ w, .word w ∈ ((Token.scan source).drop i).map Token.lexeme →
      .word w ∈ lexemes source := fun w hw => List.mem_of_mem_drop (List.map_drop ▸ hw)
  have hat := at?_eq_some_iff.1 hi
  generalize (Token.scan source).drop i = ts at hat hword
  cases hat with
  | plain hname => exact ⟨isName_of_mem_lexemes (hword _ (by simp)) hname, by simp⟩
  | extending hname hparent =>
    refine ⟨isName_of_mem_lexemes (hword _ (by simp)) hname, fun p hp => ?_⟩
    obtain rfl := Option.some.inj hp
    exact isName_of_mem_lexemes (hword _ (by simp)) hparent

/-- Every record of a unit is clean, whatever the source. -/
theorem clean_of_mem_parse {source : String} {r : ClassRecord}
    (h : r ∈ (parse source).classes) : r.Clean := by
  obtain ⟨d, hd, hrecord⟩ := Outcome.exists_declaration h
  obtain ⟨header, hheader, rfl⟩ := List.mem_map.1 hd
  have hnames := Header.clean_of_mem hheader
  rw [Header.declaration] at hrecord
  split at hrecord
  · cases hrecord
    exact ⟨hnames.1, hnames.2, fun a => Attribute.clean_of_mem, fun m => Method.clean_of_mem⟩
  · cases hrecord

end ClassShape
