import ClassShape.Proofs.Canonical.Parameters
import ClassShape.Proofs.Sweeping

/-! Canonical members, each read at the place where it stands. An attribute is quiet for the sweep
over methods and for the one over headers, a method for the one over attributes. -/
namespace ClassShape

def Modifier.lexemes : Modifier → List Lexeme
  | .default => []
  | m => [.word m.name]

def opening (m : Modifier) (type name : String) : List Char :=
  m.source.toList ++ (type.toList ++ ' ' :: name.toList)

namespace Token

theorem scanFrom_modifier (m : Modifier) (pos : Nat) (cs : List Char) :
    scanFrom pos (m.source.toList ++ cs) =
      m.lexemes.map (⟨·, pos⟩) ++ scanFrom (pos + Text.byteLength m.source.toList) cs := by
  have hword : ∀ w : String, w.toList ≠ [] → w.toList.all isWordChar = true →
      scanFrom pos ((w ++ " ").toList ++ cs) =
        ⟨.word w, pos⟩ :: scanFrom (pos + Text.byteLength (w ++ " ").toList) cs := by
    intro w hne hw
    have hsplit : (w ++ " ").toList ++ cs = w.toList ++ ' ' :: cs := by simp
    rw [hsplit, scanFrom_word_blank hne (List.all_eq_true.1 hw), String.ofList_toList]
    simp [Nat.add_assoc]
  cases m with
  | pub => exact hword "public" (by decide) (by decide)
  | priv => exact hword "private" (by decide) (by decide)
  | prot => exact hword "protected" (by decide) (by decide)
  | default => simp [Modifier.source, Modifier.lexemes]

theorem scanFrom_opening {m : Modifier} {type name : String} (ht : IsWordType type)
    (hn : IsName name) (pos : Nat) :
    ∃ p₁ p₂, scanFrom pos (opening m type name) =
      m.lexemes.map (⟨·, pos⟩) ++ [⟨.word type, p₁⟩, ⟨.word name, p₂⟩] := by
  have hname : ∀ p, scanFrom p name.toList = [⟨.word name, p⟩] := by
    intro p
    have hend : ∀ c, ([] : List Char).head? = some c → isWordChar c = false := by simp
    simpa using scanFrom_word hn.toList_ne_nil hn.isWordChar hend p
  rw [opening, scanFrom_modifier, scanFrom_word_blank ht.toList_ne_nil ht.chars, hname,
    String.ofList_toList]
  exact ⟨_, _, rfl⟩

end Token

theorem lexemes_opening {m : Modifier} {type name : String} (ht : IsWordType type)
    (hn : IsName name) : lexemes (opening m type name) = m.lexemes ++ [.word type, .word name] := by
  obtain ⟨p₁, p₂, h⟩ := Token.scanFrom_opening (m := m) ht hn 0
  rw [lexemes, Token.scan, h]
  simp [Function.comp_def]

theorem notMem_opening {m : Modifier} {type name : String} {c : Char} (ht : IsWordType type)
    (hn : IsName name) (hw : isWordChar c = false) (hb : Text.isBlank c = false) :
    c ∉ opening m type name := by
  have hmod : m.source.toList.all (fun c => isWordChar c || Text.isBlank c) = true := by
    cases m <;> decide
  have hblank : c ≠ ' ' := (Text.ne_of_isBlank (by decide) hb).symm
  have hm : c ∉ m.source.toList := fun h => by
    simpa [hw, hb] using List.all_eq_true.1 hmod c h
  have hname : c ∉ name.toList := fun h => by simp [hn.isWordChar c h] at hw
  simp [opening, hm, ht.notMem hw, hblank, hname]

theorem opening_head (m : Modifier) {type : String} (name : String) (ht : IsWordType type) :
    ∃ c cs, opening m type name = c :: cs ∧ Text.isBlank c = false := by
  cases m with
  | default =>
    obtain ⟨c, cs, htype⟩ := List.exists_cons_of_ne_nil ht.toList_ne_nil
    refine ⟨c, cs ++ ' ' :: name.toList, ?_, isBlank_of_isWordChar (ht.chars c (by simp [htype]))⟩
    simp [opening, Modifier.source, htype]
  | _ => exact ⟨'p', _, rfl, by decide⟩

namespace Attribute

def core (a : Attribute) : List Char := opening a.modifier a.type a.name ++ [';']

theorem toList_source (a : Attribute) : a.source.toList = a.core ++ [' '] := by
  simp [source, core, opening]

theorem lexemes_core {a : Attribute} (h : a.Canonical) :
    lexemes a.core = a.modifier.lexemes ++ [.word a.type, .word a.name, .mark ';'] := by
  rw [core, lexemes_append (seam_of_head (head_not_word (by decide) [])),
    lexemes_opening h.type h.name, lexemes_mark (by decide) (by decide)]
  simp

theorem match?_modifier (m : Modifier) {type : String} (ht : IsWordType type)
    (ls : List Lexeme) : match? (m.lexemes ++ .word type :: ls) =
      (unmodified? (.word type :: ls)).map fun (type, name) =>
        (⟨m, type, name⟩, m.lexemes.length + 3) := by
  cases m with
  | default =>
    -- The type comes first, and is no modifier.
    simp [Modifier.lexemes, match?, Lexeme.modifier?, ht.ofWord?_eq_none]
  | _ => simp [Modifier.lexemes, match?, Lexeme.modifier?, Modifier.name, Modifier.ofWord?]

theorem match?_core {a : Attribute} (h : a.Canonical) (ls : List Lexeme) :
    match? (lexemes a.core ++ ls) = some (a, (lexemes a.core).length) := by
  have hun : unmodified? (.word a.type :: .word a.name :: .mark ';' :: ls) =
      some (a.type, a.name) := by
    simp [unmodified?, h.type.isMemberType, h.name.isIdentifier]
  rw [lexemes_core h, List.append_assoc, List.cons_append, match?_modifier _ h.type,
    List.cons_append, List.cons_append, List.nil_append, hun]
  simp

end Attribute

namespace Method

def head (m : Method) : List Char := opening m.modifier m.returnType m.name

def list (m : Method) : List Char := (Parameter.listSource m.parameters).toList

def occurrence (m : Method) : Occurrence := ⟨m.modifier, m.returnType, m.name, m.list⟩

def core (m : Method) : List Char := m.head ++ '(' :: (m.list ++ [')', ' ', '{', ' ', '}'])

theorem toList_source (m : Method) : m.source.toList = m.core ++ [' '] := by
  simp [source, core, head, list, opening]

/-- The tokens of a method that stands at `pos`; the offsets of the parentheses cut out the
parameters. -/
theorem scanFrom_core (m : Method) (pos : Nat) {paren stop : Nat}
    (hparen : paren = pos + Text.byteLength m.head)
    (hstop : stop = paren + 1 + Text.byteLength m.list) (post : List Char) :
    Token.scanFrom pos (m.core ++ post) =
      Token.scanFrom pos m.head ++ ⟨.mark '(', paren⟩ :: (Token.scanFrom (paren + 1) m.list ++
        ⟨.mark ')', stop⟩ :: ⟨.mark '{', stop + 2⟩ :: ⟨.mark '}', stop + 4⟩ ::
          Token.scanFrom (pos + Text.byteLength m.core) post) := by
  have hcore : m.core ++ post =
      m.head ++ '(' :: (m.list ++ ')' :: ' ' :: '{' :: ' ' :: '}' :: post) := by
    simp [core]
  have hone : ' '.utf8Size = 1 ∧ '('.utf8Size = 1 ∧ ')'.utf8Size = 1 ∧ '{'.utf8Size = 1 ∧
      '}'.utf8Size = 1 := by decide
  have hend : pos + Text.byteLength m.core = stop + 5 := by
    simp [core, hone, hparen, hstop]
    omega
  rw [hcore, Token.scanFrom_append pos (seam_of_head (head_not_word (by decide) _)),
    Token.scanFrom_mark (by decide) (by decide),
    Token.scanFrom_append _ (seam_of_head (head_not_word (by decide) _)),
    Token.scanFrom_mark (by decide) (by decide), Token.scanFrom_blank (by decide),
    Token.scanFrom_mark (by decide) (by decide), Token.scanFrom_blank (by decide),
    Token.scanFrom_mark (by decide) (by decide), hend]
  simp [hone, hparen, hstop]

theorem notMem_list {m : Method} (h : m.Canonical) {c : Char}
    (hc : c ∈ ['(', ')', '{', '}', ';', '/']) : c ∉ m.list :=
  Parameter.notMem_listSource h.parameters hc

theorem lexemes_core {m : Method} (h : m.Canonical) :
    lexemes m.core = m.modifier.lexemes ++ .word m.returnType :: .word m.name :: .mark '(' ::
      (lexemes m.list ++ [.mark ')', .mark '{', .mark '}']) := by
  have hscan := congrArg (List.map Token.lexeme) (scanFrom_core m 0 rfl rfl [])
  rw [List.append_nil, Token.map_lexeme_scanFrom] at hscan
  rw [hscan]
  simp [Token.map_lexeme_scanFrom, head, lexemes_opening h.returnType h.name]

theorem closer?_append {ts : List Token} (h : ∀ t ∈ ts, t.lexeme ≠ .mark ')') (stop p : Nat)
    (rest : List Token) :
    closer? (ts ++ ⟨.mark ')', stop⟩ :: ⟨.mark '{', p⟩ :: rest) = some (stop, ts.length + 1) := by
  induction ts with
  | nil => rfl
  | cons t ts ih =>
    have ht := ih fun u hu => h u (List.mem_cons_of_mem t hu)
    obtain ⟨lexeme, start⟩ := t
    cases lexeme with
    | word w => simp [closer?, ht]
    | mark c =>
      have hc : c ≠ ')' := fun he => h ⟨.mark c, start⟩ (by simp) (congrArg Lexeme.mark he)
      simp [closer?, hc, ht]

theorem match?_modifier (body : List Char) (m : Modifier) {type : String} (ht : IsWordType type)
    (pos p : Nat) (ts : List Token) :
    match? body (m.lexemes.map (⟨·, pos⟩) ++ ⟨.word type, p⟩ :: ts) =
      (unmodified? body m (⟨.word type, p⟩ :: ts)).map fun (o, n) => (o, n + m.lexemes.length) := by
  cases m with
  | default => simp [Modifier.lexemes, match?, Lexeme.modifier?, ht.ofWord?_eq_none]
  | _ => simp [Modifier.lexemes, match?, Lexeme.modifier?, Modifier.name, Modifier.ofWord?]

theorem slice_list (m : Method) (pre post : List Char) {paren stop : Nat}
    (hparen : paren = Text.byteLength pre + Text.byteLength m.head)
    (hstop : stop = paren + 1 + Text.byteLength m.list) :
    Text.slice (paren + 1) stop (pre ++ (m.core ++ post)) = m.list := by
  have hat : paren + 1 = Text.byteLength (pre ++ (m.head ++ ['('])) := by
    simp [hparen, show '('.utf8Size = 1 by decide, Nat.add_assoc]
  have hbody : pre ++ (m.core ++ post) =
      (pre ++ (m.head ++ ['('])) ++ (m.list ++ ([')', ' ', '{', ' ', '}'] ++ post)) := by
    simp [core]
  rw [hstop, hat, hbody, Text.slice_append]

theorem list_no_paren {m : Method} (h : m.Canonical) (pos : Nat) :
    ∀ t ∈ Token.scanFrom pos m.list, t.lexeme ≠ .mark ')' := by
  intro t ht he
  have hmem := List.mem_map_of_mem (f := Token.lexeme) ht
  rw [Token.map_lexeme_scanFrom, he] at hmem
  exact notMem_list h (by simp) (mem_of_mark_mem_lexemes hmem)

theorem unmodified?_list {m : Method} (h : m.Canonical) (body : List Char) (mod : Modifier)
    (p₁ p₂ p₃ paren stop : Nat) (rest : List Token) :
    unmodified? body mod (⟨.word m.returnType, p₁⟩ :: ⟨.word m.name, p₂⟩ :: ⟨.mark '(', paren⟩ ::
        (Token.scanFrom (paren + 1) m.list ++ ⟨.mark ')', stop⟩ :: ⟨.mark '{', p₃⟩ :: rest)) =
      some (⟨mod, m.returnType, m.name, Text.slice (paren + 1) stop body⟩,
        (Token.scanFrom (paren + 1) m.list).length + 4) := by
  simp [unmodified?, h.returnType.isMemberType, h.name.isIdentifier,
    closer?_append (list_no_paren h _)]

/-- A method is found where it stands, and the sweep goes on behind it. -/
theorem sweep_core {m : Method} (h : m.Canonical) (pre post : List Char) :
    sweepFrom (match? (pre ++ (m.core ++ post))) 0
        (Token.scanFrom (Text.byteLength pre) (m.core ++ post)) =
      m.occurrence :: sweepFrom (match? (pre ++ (m.core ++ post))) 0
        (Token.scanFrom (Text.byteLength (pre ++ m.core)) post) := by
  obtain ⟨p₁, p₂, hhead⟩ := Token.scanFrom_opening (m := m.modifier) h.returnType h.name
    (Text.byteLength pre)
  obtain ⟨paren, hparen⟩ : ∃ paren, paren = Text.byteLength pre + Text.byteLength m.head :=
    ⟨_, rfl⟩
  obtain ⟨stop, hstop⟩ : ∃ stop, stop = paren + 1 + Text.byteLength m.list := ⟨_, rfl⟩
  obtain ⟨found, hfound⟩ : ∃ found : List Token, found =
      m.modifier.lexemes.map (⟨·, Text.byteLength pre⟩) ++ ⟨.word m.returnType, p₁⟩ ::
        ⟨.word m.name, p₂⟩ :: ⟨.mark '(', paren⟩ ::
          (Token.scanFrom (paren + 1) m.list ++ [⟨.mark ')', stop⟩]) := ⟨_, rfl⟩
  have hmatch : ∀ rest, match? (pre ++ (m.core ++ post)) (found ++ ⟨.mark '{', stop + 2⟩ :: rest) =
      some (m.occurrence, found.length) := by
    intro rest
    have hshape : found ++ ⟨.mark '{', stop + 2⟩ :: rest =
        m.modifier.lexemes.map (⟨·, Text.byteLength pre⟩) ++ ⟨.word m.returnType, p₁⟩ ::
          ⟨.word m.name, p₂⟩ :: ⟨.mark '(', paren⟩ :: (Token.scanFrom (paren + 1) m.list ++
            ⟨.mark ')', stop⟩ :: ⟨.mark '{', stop + 2⟩ :: rest) := by
      simp [hfound]
    rw [hshape, match?_modifier _ _ h.returnType, unmodified?_list h,
      slice_list m pre post hparen hstop, hfound]
    simp [occurrence]
    omega
  -- The match ends with the parenthesis; in the braces behind it the sweep finds nothing.
  have hbraces : Quiet (match? (pre ++ (m.core ++ post)))
      [⟨.mark '{', stop + 2⟩, ⟨.mark '}', stop + 4⟩] :=
    (match?_announces _).quiet [.mark '{'] '}' rfl (by simp) (by decide)
  have hscan : Token.scanFrom (Text.byteLength pre) (m.core ++ post) =
      found ++ ([⟨.mark '{', stop + 2⟩, ⟨.mark '}', stop + 4⟩] ++
        Token.scanFrom (Text.byteLength (pre ++ m.core)) post) := by
    rw [scanFrom_core m _ hparen hstop post, head, hhead, Text.byteLength_append, hfound]
    simp
  have hsweep := sweepFrom_match (by simp [hfound]) (hmatch (⟨.mark '}', stop + 4⟩ ::
    Token.scanFrom (Text.byteLength (pre ++ m.core)) post))
  rw [hscan]
  exact hsweep.trans (congrArg _ (hbraces _))

end Method

theorem Modifier.mark_notMem_lexemes (m : Modifier) (c : Char) : .mark c ∉ m.lexemes := by
  cases m <;> simp [Modifier.lexemes]

namespace Attribute
variable {a : Attribute}

/-- What announces itself by another mark than `;` does not begin in an attribute. -/
theorem quiet_core {β : Type} {pattern : List Token → Option (β × Nat)} {c : Char}
    (h : a.Canonical) (hp : Announces Token.lexeme pattern c) (hc : ';' ≠ c) (pos : Nat) :
    Quiet pattern (Token.scanFrom pos a.core) := by
  refine hp.quiet (a.modifier.lexemes ++ [.word a.type, .word a.name]) ';' ?_ ?_ hc
  · rw [Token.map_lexeme_scanFrom, lexemes_core h]
    simp
  · simpa using a.modifier.mark_notMem_lexemes c

end Attribute

namespace Method
variable {m : Method}

theorem quiet_attributes (h : m.Canonical) : Quiet Attribute.match? (lexemes m.core) := by
  refine Attribute.match?_announces.quiet (m.modifier.lexemes ++ .word m.returnType ::
    .word m.name :: .mark '(' :: (lexemes m.list ++ [.mark ')', .mark '{'])) '}' ?_ ?_ (by decide)
  · rw [lexemes_core h]
    simp
  · have hlist : .mark ';' ∉ lexemes m.list := fun hmem =>
      notMem_list h (by simp) (mem_of_mark_mem_lexemes hmem)
    simpa [hlist] using m.modifier.mark_notMem_lexemes ';'

theorem quiet_headers (h : m.Canonical) (pos : Nat) :
    Quiet Header.match? (Token.scanFrom pos m.core) := by
  have hlist : .mark '{' ∉ lexemes m.list := fun hmem =>
    notMem_list h (by simp) (mem_of_mark_mem_lexemes hmem)
  obtain ⟨paren, hparen⟩ : ∃ paren, paren = pos + Text.byteLength m.head := ⟨_, rfl⟩
  obtain ⟨stop, hstop⟩ : ∃ stop, stop = paren + 1 + Text.byteLength m.list := ⟨_, rfl⟩
  have hfirst : Quiet Header.match? (Token.scanFrom pos m.head ++ ⟨.mark '(', paren⟩ ::
      (Token.scanFrom (paren + 1) m.list ++ [⟨.mark ')', stop⟩])) := by
    refine Header.match?_announces.quiet (m.modifier.lexemes ++ .word m.returnType ::
      .word m.name :: .mark '(' :: lexemes m.list) ')' ?_ ?_ (by decide)
    · simp [Token.map_lexeme_scanFrom, head, lexemes_opening h.returnType h.name]
    · simpa [hlist] using m.modifier.mark_notMem_lexemes '{'
  -- The brace of a method follows a parenthesis, so no header ends there; none begins there either.
  have hbrace : Quiet Header.match? [⟨.mark '{', stop + 2⟩] :=
    Quiet.cons (fun _ => rfl) Quiet.nil
  have hlast : Quiet Header.match? [⟨.mark '}', stop + 4⟩] :=
    Header.match?_announces.quiet [] '}' rfl (by simp) (by decide)
  have hscan := scanFrom_core m pos hparen hstop []
  rw [List.append_nil] at hscan
  rw [hscan]
  simpa using (hfirst.append hbrace).append hlast

end Method
end ClassShape
