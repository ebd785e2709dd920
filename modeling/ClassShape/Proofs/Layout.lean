import ClassShape.Proofs.Braces
import ClassShape.Proofs.Canonical.Source
import ClassShape.Proofs.Headers

/-! Classes in any layout. A text made of classes whose bodies balance and declare no further class
is read as these classes, whatever blanks stand between the words. -/
namespace ClassShape

structure Blanks where
  chars : List Char
  blank : ∀ c ∈ chars, Text.isBlank c = true

structure Gap extends Blanks where
  nonempty : chars ≠ []

structure Written where
  name : String
  parent : Option String
  /-- The text between the braces. -/
  body : List Char
  afterClass : Gap
  afterName : Gap
  afterExtends : Gap
  beforeBrace : Blanks
  afterBrace : Blanks
  isName : IsName name
  parent_isName : ∀ p ∈ parent, IsName p
  balanced : Balanced body
  headerless : Headerless body

theorem Blanks.head_not_word (b : Blanks) {cs : List Char}
    (hcs : ∀ c, cs.head? = some c → isWordChar c = false) :
    ∀ c, (b.chars ++ cs).head? = some c → isWordChar c = false := by
  obtain ⟨blanks, hblank⟩ := b
  cases blanks with
  | nil => exact hcs
  | cons d blanks => exact ClassShape.head_not_word (isWordChar_of_isBlank (hblank d (by simp))) _

theorem Gap.head_not_word (g : Gap) (cs : List Char) :
    ∀ c, (g.chars ++ cs).head? = some c → isWordChar c = false := by
  obtain ⟨⟨blanks, hblank⟩, hne⟩ := g
  cases blanks with
  | nil => exact absurd rfl hne
  | cons d blanks => exact ClassShape.head_not_word (isWordChar_of_isBlank (hblank d (by simp))) _

namespace Token

theorem scanFrom_blanks (b : Blanks) (pos : Nat) (cs : List Char) :
    scanFrom pos (b.chars ++ cs) = scanFrom (pos + Text.byteLength b.chars) cs := by
  obtain ⟨blanks, hblank⟩ := b
  show scanFrom pos (blanks ++ cs) = scanFrom (pos + Text.byteLength blanks) cs
  induction blanks generalizing pos with
  | nil => rfl
  | cons c blanks ih =>
    have hrest := ih (pos + c.utf8Size) fun d hd => hblank d (List.mem_cons_of_mem c hd)
    rw [List.cons_append, scanFrom_blank (hblank c (by simp)), hrest, Text.byteLength_cons,
      Nat.add_assoc]

/-- A word and the blanks after it. -/
theorem scanFrom_word_blanks {w : List Char} (hne : w ≠ []) (hw : ∀ c ∈ w, isWordChar c = true)
    (b : Blanks) {cs : List Char}
    (hcs : ∀ c, (b.chars ++ cs).head? = some c → isWordChar c = false) (pos : Nat) :
    scanFrom pos (w ++ (b.chars ++ cs)) =
      ⟨.word (String.ofList w), pos⟩ :: scanFrom (pos + Text.byteLength (w ++ b.chars)) cs := by
  rw [scanFrom_word hne hw hcs, scanFrom_blanks, Text.byteLength_append, Nat.add_assoc]

end Token

namespace Header
variable {ts us : List Token} {h : Header}

/-- No header runs over a closing brace. -/
theorem At.of_append {brace : Nat} (hat : At (ts ++ ⟨.mark '}', brace⟩ :: us) h) : At ts h := by
  generalize hcons : ts ++ ⟨.mark '}', brace⟩ :: us = vs at hat
  cases hat with
  | plain hname =>
    obtain _ | ⟨t₁, _ | ⟨t₂, _ | ⟨t₃, ts⟩⟩⟩ := ts <;> simp at hcons
    obtain ⟨rfl, rfl, rfl, -⟩ := hcons
    exact .plain hname
  | extending hname hparent =>
    obtain _ | ⟨t₁, _ | ⟨t₂, _ | ⟨t₃, _ | ⟨t₄, _ | ⟨t₅, ts⟩⟩⟩⟩⟩ := ts <;> simp at hcons
    obtain ⟨rfl, rfl, rfl, rfl, rfl, -⟩ := hcons
    exact .extending hname hparent

/-- Whether a header stands somewhere does not depend on the offsets. -/
theorem At.of_lexemes (hat : At ts h) (hlexemes : ts.map Token.lexeme = us.map Token.lexeme) :
    ∃ h', At us h' := by
  cases hat with
  | plain hname =>
    obtain _ | ⟨⟨l₁, i⟩, _ | ⟨⟨l₂, j⟩, _ | ⟨⟨l₃, k⟩, us⟩⟩⟩ := us <;> simp at hlexemes
    obtain ⟨rfl, rfl, rfl, -⟩ := hlexemes
    exact ⟨_, .plain hname⟩
  | extending hname hparent =>
    obtain _ | ⟨⟨l₁, i⟩, _ | ⟨⟨l₂, j⟩, _ | ⟨⟨l₃, k⟩, _ | ⟨⟨l₄, l⟩, _ | ⟨⟨l₅, m⟩, us⟩⟩⟩⟩⟩ := us <;>
      simp at hlexemes
    obtain ⟨rfl, rfl, rfl, rfl, rfl, -⟩ := hlexemes
    exact ⟨_, .extending hname hparent⟩

end Header

/-- A text in which no header stands, with the brace that closes it. -/
theorem Headerless.quiet {body : List Char} (hbody : Headerless body) (pos brace : Nat) :
    Quiet Header.match? (Token.scanFrom pos body ++ [⟨.mark '}', brace⟩]) := by
  apply Quiet.of_drop
  intro i zs hi
  rw [Header.match?_eq_none_iff]
  intro h hat
  have hlexemes : ((Token.scanFrom pos body).drop i).map Token.lexeme =
      ((Token.scan body).drop i).map Token.lexeme := by
    rw [List.map_drop, List.map_drop, Token.map_lexeme_scanFrom]
    rfl
  rw [List.drop_append_of_le_length (by simpa [Nat.lt_succ_iff] using hi), List.append_assoc,
    List.singleton_append] at hat
  obtain ⟨h', hat'⟩ := hat.of_append.of_lexemes hlexemes
  exact hbody i h' hat'

namespace Written

def extendsText (w : Written) : List Char :=
  match w.parent with
  | none => []
  | some p => w.afterName.chars ++ ("extends".toList ++ (w.afterExtends.chars ++ p.toList))

def header (w : Written) : List Char :=
  "class".toList ++ (w.afterClass.chars ++
    (w.name.toList ++ (w.extendsText ++ w.beforeBrace.chars)))

def text (w : Written) : List Char :=
  w.header ++ '{' :: (w.body ++ '}' :: w.afterBrace.chars)

theorem match?_header (w : Written) (pos brace : Nat) (ts : List Token) :
    Header.match? (Token.scanFrom pos w.header ++ ⟨.mark '{', brace⟩ :: ts) =
      some (⟨w.name, w.parent, brace⟩, (Token.scanFrom pos w.header).length + 1) := by
  have hclass : ∀ c ∈ "class".toList, isWordChar c = true := List.all_eq_true.1 (by decide)
  have hextends : ∀ c ∈ "extends".toList, isWordChar c = true := List.all_eq_true.1 (by decide)
  have hend : ∀ c, (w.beforeBrace.chars ++ []).head? = some c → isWordChar c = false :=
    w.beforeBrace.head_not_word (by simp)
  cases hp : w.parent with
  | none =>
    have hheader : w.header = "class".toList ++ (w.afterClass.chars ++ (w.name.toList ++
        (w.beforeBrace.chars ++ []))) := by
      simp [header, extendsText, hp]
    rw [hheader, Token.scanFrom_word_blanks (by decide) hclass _ (w.afterClass.head_not_word _),
      Token.scanFrom_word_blanks w.isName.toList_ne_nil w.isName.isWordChar _ hend]
    simp [Header.match?, w.isName.isIdentifier]
  | some p =>
    have hparent := w.parent_isName p hp
    have hheader : w.header = "class".toList ++ (w.afterClass.chars ++ (w.name.toList ++
        (w.afterName.chars ++ ("extends".toList ++ (w.afterExtends.chars ++ (p.toList ++
          (w.beforeBrace.chars ++ []))))))) := by
      simp [header, extendsText, hp]
    rw [hheader, Token.scanFrom_word_blanks (by decide) hclass _ (w.afterClass.head_not_word _),
      Token.scanFrom_word_blanks w.isName.toList_ne_nil w.isName.isWordChar _
        (w.afterName.head_not_word _),
      Token.scanFrom_word_blanks (by decide) hextends _ (w.afterExtends.head_not_word _),
      Token.scanFrom_word_blanks hparent.toList_ne_nil hparent.isWordChar _ hend]
    simp [Header.match?, w.isName.isIdentifier, hparent.isIdentifier]

def close (w : Written) (pos : Nat) : Nat :=
  pos + Text.byteLength w.header + 1 + Text.byteLength w.body

theorem scanFrom_text (w : Written) (pos : Nat) (post : List Char) :
    Token.scanFrom pos (w.text ++ post) =
      (Token.scanFrom pos w.header ++ [⟨.mark '{', pos + Text.byteLength w.header⟩]) ++
        ((Token.scanFrom (pos + Text.byteLength w.header + 1) w.body ++
          [⟨.mark '}', w.close pos⟩]) ++ Token.scanFrom (pos + Text.byteLength w.text) post) := by
  have htext : w.text ++ post =
      w.header ++ '{' :: (w.body ++ '}' :: (w.afterBrace.chars ++ post)) := by
    simp [text]
  have hopen : '{'.utf8Size = 1 := by decide
  have hend : w.close pos + '}'.utf8Size + Text.byteLength w.afterBrace.chars =
      pos + Text.byteLength w.text := by
    simp [close, text, hopen, Nat.add_assoc]
  rw [htext, Token.scanFrom_append pos (seam_of_head (head_not_word (by decide) _)),
    Token.scanFrom_mark (by decide) (by decide), hopen,
    Token.scanFrom_append _ (seam_of_head (head_not_word (by decide) _)), ← close,
    Token.scanFrom_mark (by decide) (by decide), Token.scanFrom_blanks, hend]
  simp

/-- The header of a class is found, and none inside the class. -/
theorem sweep_text (w : Written) (pos : Nat) (post : List Char) :
    sweepFrom Header.match? 0 (Token.scanFrom pos (w.text ++ post)) =
      ⟨w.name, w.parent, pos + Text.byteLength w.header⟩ ::
        sweepFrom Header.match? 0 (Token.scanFrom (pos + Text.byteLength w.text) post) := by
  obtain ⟨found, hfound⟩ : ∃ found, found = Token.scanFrom pos w.header ++
      [⟨.mark '{', pos + Text.byteLength w.header⟩] := ⟨_, rfl⟩
  have hmatch : ∀ ts, Header.match? (found ++ ts) =
      some (⟨w.name, w.parent, pos + Text.byteLength w.header⟩, found.length) := by
    intro ts
    rw [hfound, List.append_assoc, List.singleton_append, match?_header, List.length_append]
    rfl
  rw [scanFrom_text, ← hfound, sweepFrom_match (by simp [hfound]) (hmatch _),
    w.headerless.quiet]

/-- The body of a class is cut out where it stands. -/
theorem declaration_text (w : Written) (pre post : List Char) :
    Header.declaration (pre ++ (w.text ++ post))
        ⟨w.name, w.parent, Text.byteLength pre + Text.byteLength w.header⟩ =
      .complete ⟨w.name, w.parent, String.ofList (Text.trim w.body),
        Text.byteLength pre + Text.byteLength w.header + 1, w.close (Text.byteLength pre)⟩ := by
  have htext : pre ++ (w.text ++ post) =
      (pre ++ w.header) ++ '{' :: (w.body ++ '}' :: (w.afterBrace.chars ++ post)) := by
    simp [text]
  rw [htext, ← Text.byteLength_append, w.balanced.neutral.declaration_eq, Text.byteLength_append,
    close]

theorem declarations_texts (ws : List Written) (pre : List Char) :
    List.Forall₂ (fun w d => ∃ start stop,
        d = .complete ⟨w.name, w.parent, String.ofList (Text.trim w.body), start, stop⟩)
      ws ((sweepFrom Header.match? 0 (Token.scanFrom (Text.byteLength pre) (ws.flatMap text))).map
        (Header.declaration (pre ++ ws.flatMap text))) := by
  -- The text is fixed and the sweep moves on in it: what has been read goes over to `pre`.
  induction ws generalizing pre with
  | nil => simp [sweepFrom]
  | cons w ws ih =>
    have hrest := ih (pre ++ w.text)
    rw [Text.byteLength_append, List.append_assoc] at hrest
    rw [List.flatMap_cons, sweep_text, List.map_cons]
    exact .cons ⟨_, _, w.declaration_text pre (ws.flatMap text)⟩ hrest

end Written

/-- The declarations of a text are those of all the headers in it, in order. So classes that stand
one after another in any layout, their bodies balanced and without headers, are read as they
are. -/
theorem declarations_exact :
    (∀ source : String, ∃ positions : List Nat, positions.Pairwise (· < ·) ∧
      (∀ i, i ∈ positions ↔ ∃ h, Header.At ((tokenize source).drop i) h) ∧
      List.Forall₂ (fun i d => ∃ h, Header.At ((tokenize source).drop i) h ∧
        d = Header.declaration source.toList h) positions (declarations source)) ∧
    (∀ (lead : Blanks) (ws : List Written),
      List.Forall₂ (fun w d => ∃ start stop,
          d = .complete ⟨w.name, w.parent, String.ofList (Text.trim w.body), start, stop⟩)
        ws (declarations (String.ofList (lead.chars ++ ws.flatMap Written.text)))) := by
  refine ⟨exists_positions, fun lead ws => ?_⟩
  have htexts := Written.declarations_texts ws lead.chars
  rw [declarations, headers, sweep, String.toList_ofList, Token.scan, Token.scanFrom_blanks,
    Nat.zero_add]
  exact htexts

def Gap.single (c : Char) (h : Text.isBlank c = true) : Gap := ⟨⟨[c], by simpa using h⟩, by simp⟩

def keywordClasses : List Written :=
  let space := Gap.single ' ' (by decide)
  let tab := Gap.single '\t' (by decide)
  let newline := Gap.single '\n' (by decide)
  let nothing : Blanks := ⟨[], by simp⟩
  [{ name := "class", parent := some "extends",
     body := " void f() \x7b if (x) \x7b \x7d \x7d ".toList,
     afterClass := space, afterName := newline, afterExtends := tab
     beforeBrace := space.toBlanks, afterBrace := newline.toBlanks
     isName := by decide +kernel, parent_isName := by decide +kernel
     balanced := by decide +kernel, headerless := by decide +kernel },
   { name := "extends", parent := none, body := []
     afterClass := tab, afterName := space, afterExtends := space
     beforeBrace := nothing, afterBrace := nothing
     isName := by decide +kernel, parent_isName := by decide +kernel
     balanced := by decide +kernel, headerless := by decide +kernel }]

theorem declarations_keywordClasses :
    String.ofList (keywordClasses.flatMap Written.text) =
      "class class\nextends\textends \x7b void f() \x7b if (x) \x7b \x7d \x7d \x7d\nclass\textends\x7b\x7d" ∧
    List.Forall₂ (fun w d => ∃ start stop,
        d = .complete ⟨w.name, w.parent, String.ofList (Text.trim w.body), start, stop⟩)
      keywordClasses (declarations (String.ofList ([] ++ keywordClasses.flatMap Written.text))) :=
  ⟨by decide +kernel, declarations_exact.2 ⟨[], by simp⟩ keywordClasses⟩

end ClassShape
