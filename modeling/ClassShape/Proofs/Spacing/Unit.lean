import ClassShape.Proofs.Spacing.Members

/-! Units in another layout. The headers of a squeezed text are those of the text with their braces
moved, and between the braces stand the squeezed bodies; so the same classes are read and the same
advisories given. -/
namespace ClassShape
open Text (squeeze squeezedOffset Between StandsAt)

namespace Header
variable {ts : List Token} {h : Header}

def move (f : Nat → Nat) (h : Header) : Header := { h with brace := f h.brace }

theorem At.move (hat : At ts h) (f : Nat → Nat) : At (ts.map (Token.move f)) (h.move f) := by
  cases hat with
  | plain hname => exact .plain hname
  | extending hname hparent => exact .extending hname hparent

theorem match?_move (f : Nat → Nat) (ts : List Token) :
    match? (ts.map (Token.move f)) = (match? ts).map fun (h, n) => (h.move f, n) := by
  cases hm : match? ts with
  | none =>
    rw [match?_eq_none_iff] at hm
    apply match?_eq_none_iff.2
    intro h hat
    obtain ⟨h', hat'⟩ := hat.of_lexemes (Token.map_lexeme_move f ts)
    exact hm h' hat'
  | some r =>
    obtain ⟨hat, hsize⟩ := match?_eq_some_iff.1 hm
    exact match?_eq_some_iff.2 ⟨hat.move f, hsize⟩

end Header

theorem headers_squeeze (source : List Char) :
    headers (squeeze source) = (headers source).map (Header.move (squeezedOffset source)) := by
  rw [headers, sweep, Token.scan_squeeze]
  exact sweepFrom_move (fun ts _ => Header.match?_move _ ts) 0

section Braces
variable {source : List Char} {brace : Nat}

/-- The brace that closes another stands behind it, with a text between. -/
theorem matchingBrace_between {stop : Nat} (h : StandsAt ['{'] 0 brace source)
    (hstop : matchingBrace source brace = some stop) :
    ∃ inside, Between '{' '}' brace stop source inside := by
  obtain ⟨before, after, rfl, rfl⟩ := h
  rw [Nat.zero_add, matchingBrace, Text.dropBytes_append] at hstop
  obtain ⟨inside, rest, rfl, hinside⟩ :=
    closingBrace_standsAt (show closingBrace 1 _ after = some stop from hstop)
  exact ⟨inside, before, rest, rfl, (Nat.zero_add _).symm, by rw [Nat.zero_add]; exact hinside⟩

theorem matchingBrace_squeeze (h : StandsAt ['{'] 0 brace source) :
    matchingBrace (squeeze source) (squeezedOffset source brace) =
      (matchingBrace source brace).map (squeezedOffset source) := by
  obtain ⟨before, after, rfl, rfl⟩ := h
  rw [List.singleton_append, Nat.zero_add]
  have htracks := Text.tracks_squeezedOffset (before ++ '{' :: after)
  have hbrace := htracks before '{' after rfl (by decide)
  have hbehind := htracks.split (show Text.isBlank '{' = false by decide)
  simp only [Nat.zero_add] at hbrace hbehind
  rw [hbrace, matchingBrace, matchingBrace, Text.dropBytes_append,
    Text.squeeze_split _ (by decide), Text.dropBytes_append]
  exact closingBrace_squeeze (Nat.succ_pos 0) hbehind

end Braces

namespace Declaration

def content : Declaration → Except String ClassRecord
  | complete body => .ok body.classRecord
  | unclosed name => .error name

end Declaration

theorem Outcome.add_congr {d e : Declaration} (h : d.content = e.content) (o : Outcome) :
    o.add d = o.add e := by
  cases d with
  | complete body =>
    cases e with
    | complete body' => simp only [add, Except.ok.inj h]
    | unclosed name => cases h
  | unclosed name =>
    cases e with
    | complete body => cases h
    | unclosed name' => simp only [add, Except.error.inj h]

theorem Outcome.foldl_add_congr {ds es : List Declaration}
    (h : ds.map Declaration.content = es.map Declaration.content) (o : Outcome) :
    ds.foldl add o = es.foldl add o := by
  induction ds generalizing es o with
  | nil => rw [List.map_eq_nil_iff.1 h.symm]
  | cons d ds ih =>
    obtain ⟨e, es, rfl, he, hrest⟩ := List.map_eq_cons_iff.1 h.symm
    rw [List.foldl_cons, List.foldl_cons, add_congr he, ih hrest.symm]

theorem Outcome.ofDeclarations_congr {ds es : List Declaration}
    (h : ds.map Declaration.content = es.map Declaration.content) :
    ofDeclarations ds = ofDeclarations es := by
  cases ds with
  | nil => rw [List.map_eq_nil_iff.1 h.symm]
  | cons d ds =>
    cases es with
    | nil => simp at h
    | cons e es => exact foldl_add_congr h empty

theorem ClassBody.classRecord_squeeze (name : String) (parent : Option String) (text : List Char)
    (start start' stop stop' : Nat) :
    (ClassBody.mk name parent (String.ofList (squeeze text)) start' stop').classRecord =
      (ClassBody.mk name parent (String.ofList text) start stop).classRecord := by
  simp only [classRecord, attributes, methods, String.toList_ofList, Attribute.scan_squeeze,
    Method.scan_squeeze]

theorem Header.content_squeeze {source : List Char} {h : Header} (hh : h ∈ headers source) :
    ((h.move (squeezedOffset source)).declaration (squeeze source)).content =
      (h.declaration source).content := by
  have hbrace := brace_standsAt hh
  have hmatch := matchingBrace_squeeze hbrace
  rw [declaration, declaration, move, hmatch]
  cases hstop : matchingBrace source h.brace with
  | none => rfl
  | some stop =>
    obtain ⟨inside, hinside⟩ := matchingBrace_between hbrace hstop
    have hslice := hinside.slice_squeeze (by decide) (by decide)
    rw [show '{'.utf8Size = 1 by decide] at hslice
    simp only [Option.map_some, hslice, Text.trim_squeeze, Declaration.content]
    exact congrArg Except.ok (ClassBody.classRecord_squeeze ..)

theorem declarations_squeeze (s : String) :
    (declarations (String.ofList (squeeze s.toList))).map Declaration.content =
      (declarations s).map Declaration.content := by
  rw [declarations, declarations, String.toList_ofList, headers_squeeze, List.map_map, List.map_map,
    List.map_map]
  exact List.map_congr_left fun h hh => Header.content_squeeze hh

theorem parse_of_free {s : String} (hline : ¬ ['/', '/'] <:+: s.toList)
    (hopen : ¬ ['/', '*'] <:+: s.toList) : parse s = Outcome.ofDeclarations (declarations s) := by
  have hblock : ¬ Comment.HasBlock s.toList := fun h => hopen h.opening
  rw [parse, Comment.strip_of_free hline hblock]

/-- A unit without comments is read the same in every layout. -/
theorem parse_relaid {s t : String} (hline : ¬ ['/', '/'] <:+: s.toList)
    (hopen : ¬ ['/', '*'] <:+: s.toList) (h : Relaid s.toList t.toList) : parse s = parse t := by
  have hline' : ¬ ['/', '/'] <:+: t.toList := by
    rwa [← h.pair_infix_iff (by decide) (by decide)]
  have hopen' : ¬ ['/', '*'] <:+: t.toList := by
    rwa [← h.pair_infix_iff (by decide) (by decide)]
  rw [parse_of_free hline hopen, parse_of_free hline' hopen']
  apply Outcome.ofDeclarations_congr
  rw [← declarations_squeeze s, h.squeeze_eq, declarations_squeeze t]

def singleLineUnit : String :=
  "class Box extends Base \x7b int n; void put(final Map<K, V> m) \x7b \x7d \x7d class Open \x7b"

def multiLineUnit : String :=
  "class\tBox\nextends\u3000Base\r\n\x7b\n  int\u00a0n;\n" ++
  " void put(final\tMap<K,\n\u2003V> m)\n\x7b\n\x7d\n\x7d\n\nclass Open\n\x7b"

theorem parse_multiLineUnit :
    Relaid singleLineUnit.toList multiLineUnit.toList ∧
    parse singleLineUnit = parse multiLineUnit ∧
    parse singleLineUnit = ⟨[⟨"Box", some "Base", [⟨.default, "int", "n"⟩],
      [⟨.default, "void", "put", [⟨"Map<K, V>", "m"⟩]⟩]⟩], [.unbalanced "Open"]⟩ := by
  have hslash : '/' ∉ singleLineUnit.toList := by decide +kernel
  have hlayout : Relaid singleLineUnit.toList multiLineUnit.toList := by decide +kernel
  refine ⟨hlayout, ?_, by decide +kernel⟩
  apply parse_relaid _ _ hlayout
  · exact fun h => hslash (h.subset (by simp))
  · exact fun h => hslash (h.subset (by simp))

end ClassShape
