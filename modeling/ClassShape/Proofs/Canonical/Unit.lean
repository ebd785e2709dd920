import ClassShape.Proofs.Canonical.Body
import ClassShape.Proofs.Pooling
import ClassShape.Proofs.Stripping

/-! Canonical source units: reading one gives back the records it was written from. -/
namespace ClassShape

def headerText (name : String) (parent : Option String) : List Char :=
  ("class " ++ name ++ extendsSource parent).toList

theorem Header.match?_headerText {name : String} {parent : Option String} (hn : IsName name)
    (hp : ∀ p ∈ parent, IsName p) (pos brace : Nat) (ts : List Token) :
    match? (Token.scanFrom pos (headerText name parent) ++ ⟨.mark '{', brace⟩ :: ts) =
      some (⟨name, parent, brace⟩, (Token.scanFrom pos (headerText name parent)).length + 1) := by
  have hclass : ∀ c ∈ "class".toList, isWordChar c = true := List.all_eq_true.1 (by decide)
  have hextends : ∀ c ∈ "extends".toList, isWordChar c = true := List.all_eq_true.1 (by decide)
  cases parent with
  | none =>
    have htext : headerText name none = "class".toList ++ ' ' :: (name.toList ++ [' ']) := by
      simp [headerText, extendsSource]
    rw [htext, Token.scanFrom_word_blank (by decide) hclass,
      Token.scanFrom_word_blank hn.toList_ne_nil hn.isWordChar]
    simp [match?, hn.isIdentifier]
  | some p =>
    have hparent := hp p rfl
    have htext : headerText name (some p) = "class".toList ++ ' ' :: (name.toList ++ ' ' ::
        ("extends".toList ++ ' ' :: (p.toList ++ [' ']))) := by
      simp [headerText, extendsSource]
    rw [htext, Token.scanFrom_word_blank (by decide) hclass,
      Token.scanFrom_word_blank hn.toList_ne_nil hn.isWordChar,
      Token.scanFrom_word_blank (by decide) hextends,
      Token.scanFrom_word_blank hparent.toList_ne_nil hparent.isWordChar]
    simp [match?, hn.isIdentifier, hparent.isIdentifier]

namespace Listing
variable {l : Listing}

def header (l : Listing) : List Char := headerText l.record.name l.record.parent

def text (l : Listing) : List Char :=
  l.header ++ '{' :: (Member.inner l.members ++ ['}', ' '])

theorem toList_source (l : Listing) : l.source.toList = l.text := by
  have hmembers : (String.join (l.members.map Member.source)).toList =
      l.members.flatMap fun m => m.core ++ [' '] := by
    simp [String.toList_join, List.flatMap_map, Member.toList_source]
  simp [source, text, header, headerText, Member.inner, hmembers]

theorem members_canonical (h : l.record.Canonical) : ∀ m ∈ l.members, m.Canonical := by
  intro m hm
  cases m with
  | ofAttribute a =>
    refine h.attributes a ?_
    rw [← l.attributes_eq]
    exact List.mem_filterMap.2 ⟨_, hm, rfl⟩
  | ofMethod m =>
    refine h.methods m ?_
    rw [← l.methods_eq]
    exact List.mem_filterMap.2 ⟨_, hm, rfl⟩

/-- The header of a class is found, and none inside the class. -/
theorem sweep_text (h : l.record.Canonical) (pos : Nat) (post : List Char) :
    sweepFrom Header.match? 0 (Token.scanFrom pos (l.text ++ post)) =
      ⟨l.record.name, l.record.parent, pos + Text.byteLength l.header⟩ ::
        sweepFrom Header.match? 0 (Token.scanFrom (pos + Text.byteLength l.text) post) := by
  obtain ⟨brace, hbrace⟩ : ∃ brace, brace = pos + Text.byteLength l.header := ⟨_, rfl⟩
  obtain ⟨close, hclose⟩ : ∃ close, close = brace + '{'.utf8Size +
      Text.byteLength (Member.inner l.members) := ⟨_, rfl⟩
  have htext : l.text ++ post =
      l.header ++ '{' :: (Member.inner l.members ++ '}' :: ' ' :: post) := by
    simp [text]
  have hend : close + '}'.utf8Size + ' '.utf8Size = pos + Text.byteLength l.text := by
    simp [hclose, hbrace, text, Nat.add_assoc]
  obtain ⟨found, hfound⟩ : ∃ found, found = Token.scanFrom pos l.header ++ [⟨.mark '{', brace⟩] :=
    ⟨_, rfl⟩
  have hscan : Token.scanFrom pos (l.text ++ post) =
      found ++ (Token.scanFrom (brace + '{'.utf8Size) (Member.inner l.members) ++
        ([⟨.mark '}', close⟩] ++ Token.scanFrom (pos + Text.byteLength l.text) post)) := by
    rw [htext, Token.scanFrom_append pos (seam_of_head (head_not_word (by decide) _)), ← hbrace,
      Token.scanFrom_mark (by decide) (by decide),
      Token.scanFrom_append _ (Member.seam_inner l.members _), ← hclose,
      Token.scanFrom_mark (by decide) (by decide), Token.scanFrom_blank (by decide), hend,
      hfound, List.append_assoc]
    rfl
  have hmatch : ∀ ts, Header.match? (found ++ ts) =
      some (⟨l.record.name, l.record.parent, brace⟩, found.length) := by
    intro ts
    rw [hfound, List.append_assoc, List.singleton_append, List.length_append]
    exact Header.match?_headerText h.name h.parent pos brace ts
  have hlast : Quiet Header.match? [⟨.mark '}', close⟩] :=
    Header.match?_announces.quiet [] '}' rfl (by simp) (by decide)
  rw [hscan, sweepFrom_match (by simp [hfound]) (hmatch _),
    Member.quiet_inner (members_canonical h) _ _, hlast, hbrace]

/-- The body of a class is cut out where it stands and gives its record. -/
theorem record?_declaration (h : l.record.Canonical)
    (hc : ∀ m ∈ l.record.methods, ∀ p ∈ m.parameters, CommasEnclosed p.type)
    (pre post : List Char) :
    (Header.declaration (pre ++ (l.text ++ post))
      ⟨l.record.name, l.record.parent, Text.byteLength (pre ++ l.header)⟩).record? =
        some l.record := by
  have hmembers := members_canonical h
  have htext : pre ++ (l.text ++ post) =
      (pre ++ l.header) ++ '{' :: (Member.inner l.members ++ '}' :: ' ' :: post) := by
    simp [text]
  have hattributes : attributes (String.ofList (Member.body l.members)) = l.record.attributes := by
    rw [attributes, String.toList_ofList, Member.attributes_body hmembers, l.attributes_eq]
  have hmethods : methods (String.ofList (Member.body l.members)) = l.record.methods := by
    rw [← l.methods_eq] at hc
    rw [methods, String.toList_ofList, Member.methods_body hmembers hc, l.methods_eq]
  rw [htext, (Member.neutral_inner hmembers).declaration_eq, Member.trim_inner hmembers,
    Declaration.record?, ClassBody.classRecord, hattributes, hmethods]

theorem slash_notMem_text (h : l.record.Canonical) : '/' ∉ l.text := by
  have hname : '/' ∉ l.record.name.toList := h.name.notMem (by decide)
  have hparent : '/' ∉ (extendsSource l.record.parent).toList := by
    cases hp : l.record.parent with
    | none => decide
    | some p => simpa [extendsSource] using (h.parent p hp).notMem (by decide)
  have hinner := Member.slash_notMem_inner (members_canonical h)
  simp [text, header, headerText, hname, hparent, hinner]

theorem records_texts {ls : List Listing} (h : ∀ l ∈ ls, l.record.Canonical)
    (hc : ∀ l ∈ ls, ∀ m ∈ l.record.methods, ∀ p ∈ m.parameters, CommasEnclosed p.type)
    (pre : List Char) :
    (sweepFrom Header.match? 0 (Token.scanFrom (Text.byteLength pre) (ls.flatMap text))).map
        (fun d => (Header.declaration (pre ++ ls.flatMap text) d).record?) =
      ls.map fun l => some l.record := by
  -- As in a body, what has been read goes over to `pre`.
  induction ls generalizing pre with
  | nil => simp [sweepFrom]
  | cons l ls ih =>
    have hl := h l (by simp)
    have hrest := ih (fun k hk => h k (List.mem_cons_of_mem l hk))
      (fun k hk => hc k (List.mem_cons_of_mem l hk)) (pre ++ l.text)
    have hrecord := record?_declaration hl (hc l (by simp)) pre (ls.flatMap text)
    rw [Text.byteLength_append, List.append_assoc] at hrest
    rw [Text.byteLength_append] at hrecord
    rw [List.flatMap_cons, sweep_text hl, List.map_cons, hrest, hrecord, List.map_cons]

end Listing

theorem toList_unitSource (ls : List Listing) :
    (unitSource ls).toList = ls.flatMap Listing.text := by
  simp [unitSource, String.toList_join, List.flatMap_map, Listing.toList_source]

theorem records_unitSource {ls : List Listing} (h : ∀ l ∈ ls, l.record.Canonical)
    (hc : ∀ l ∈ ls, ∀ m ∈ l.record.methods, ∀ p ∈ m.parameters, CommasEnclosed p.type) :
    (declarations (unitSource ls)).map Declaration.record? = ls.map fun l => some l.record := by
  have htexts := Listing.records_texts h hc []
  rw [declarations, toList_unitSource, List.map_map]
  exact htexts

/-- A type that is read has no comma outside brackets, whatever the text. -/
theorem commasEnclosed_of_parse {s : String} {r : ClassRecord} {m : Method} {p : Parameter}
    (hr : r ∈ (parse s).classes) (hm : m ∈ r.methods) (hp : p ∈ m.parameters) :
    CommasEnclosed p.type := by
  obtain ⟨d, -, hd⟩ := Outcome.exists_declaration hr
  cases d with
  | unclosed name => simp [Declaration.record?] at hd
  | complete body =>
    cases hd
    obtain ⟨o, -, rfl⟩ := List.mem_map.1 hm
    exact Parameter.commasEnclosed_iff.2 (Parameter.enclosed_of_mem_scan hp)

theorem parse_of_records {s : String} {rs : List ClassRecord} (hs : '/' ∉ s.toList) (hne : rs ≠ [])
    (hrecords : (declarations s).map Declaration.record? = rs.map some)
    (hnames : (rs.map (·.name)).Nodup) : parse s = ⟨rs, []⟩ := by
  rw [parse, Comment.strip_of_no_slash hs]
  cases hds : declarations s with
  | nil => simp [hds, hne] at hrecords
  | cons d ds =>
    rw [hds] at hrecords
    exact Outcome.foldl_add (o := Outcome.empty) hrecords hnames

/-- Reading canonical source text gives back the records it was written from, exactly if no comma
of a parameter type stands outside brackets. -/
theorem parse_unitSource (ls : List Listing) (hne : ls ≠ [])
    (hnames : (ls.map fun l => l.record.name).Nodup) (hcanonical : ∀ l ∈ ls, l.record.Canonical) :
    parse (unitSource ls) = ⟨ls.map Listing.record, []⟩ ↔
      ∀ l ∈ ls, ∀ m ∈ l.record.methods, ∀ p ∈ m.parameters, CommasEnclosed p.type := by
  constructor
  · intro h l hl m hm p hp
    have hr : l.record ∈ (parse (unitSource ls)).classes := by
      rw [h]
      exact List.mem_map_of_mem hl
    exact commasEnclosed_of_parse hr hm hp
  · intro hcommas
    have hslash : '/' ∉ (unitSource ls).toList := by
      rw [toList_unitSource, List.mem_flatMap]
      intro hin
      obtain ⟨l, hl, hmem⟩ := hin
      exact Listing.slash_notMem_text (hcanonical l hl) hmem
    refine parse_of_records hslash (by simpa using hne) ?_
      (by simpa [Function.comp_def] using hnames)
    rw [records_unitSource hcanonical hcommas, List.map_map]
    rfl

/-- Names and types that spell keywords, the two kinds of member in turn, and a comma in
brackets. -/
def keywordUnit : List Listing :=
  let field : Attribute := ⟨.priv, "List<int[]>", "final"⟩
  let method : Method :=
    ⟨.pub, "extends", "class", [⟨"Map<String, int> []", "final"⟩, ⟨"T", "class"⟩]⟩
  let other : Attribute := ⟨.default, "class", "extends"⟩
  let last : Method := ⟨.default, "void", "private", []⟩
  [⟨⟨"class", some "extends", [field, other], [method, last]⟩,
      [.ofAttribute field, .ofMethod method, .ofAttribute other, .ofMethod last], rfl, rfl⟩,
    ⟨⟨"final", none, [], []⟩, [], rfl, rfl⟩]

theorem parse_keywordUnit :
    unitSource keywordUnit = "class class extends extends \x7b private List<int[]> final; " ++
      "public extends class(Map<String, int> [] final, T class) \x7b \x7d class extends; " ++
      "void private() \x7b \x7d \x7d class final \x7b \x7d " ∧
    (∀ l ∈ keywordUnit, l.record.Canonical) ∧
    parse (unitSource keywordUnit) = ⟨keywordUnit.map Listing.record, []⟩ := by
  have hcanonical : ∀ l ∈ keywordUnit, l.record.Canonical := by decide +kernel
  refine ⟨by decide +kernel, hcanonical, ?_⟩
  exact (parse_unitSource keywordUnit (by decide) (by decide +kernel) hcanonical).2
    (by decide +kernel)

def bareComma : Listing :=
  let method : Method := ⟨.default, "void", "m", [⟨"a x, b", "p"⟩]⟩
  ⟨⟨"A", none, [], [method]⟩, [.ofMethod method], rfl, rfl⟩

/-- Brackets that balance are not enough: `a x, b p` is read as two parameters. -/
theorem parse_bareComma :
    bareComma.record.Canonical ∧
    unitSource [bareComma] = "class A \x7b void m(a x, b p) \x7b \x7d \x7d " ∧
    parse (unitSource [bareComma]) =
      ⟨[⟨"A", none, [], [⟨.default, "void", "m", [⟨"a", "x"⟩, ⟨"b", "p"⟩]⟩]⟩], []⟩ ∧
    parse (unitSource [bareComma]) ≠ ⟨[bareComma.record], []⟩ := by
  decide +kernel

end ClassShape
