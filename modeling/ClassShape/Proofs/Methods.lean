import ClassShape.Proofs.Attributes
import ClassShape.Proofs.Overlapping
import ClassShape.Proofs.Spacing.Members
import Mathlib.Data.Nat.Find

/-! Where methods stand. A method is closed by the first closing parenthesis behind its name. Where
a parenthesis is left open, several methods are closed by the same one; the first of them is read,
with the others inside its list of parameters. -/
namespace ClassShape

theorem Token.getElem?_map_lexeme {ts : List Token} {i : Nat} {l : Lexeme} :
    (ts.map lexeme)[i]? = some l ↔ ∃ start, ts[i]? = some ⟨l, start⟩ := by
  rw [List.getElem?_map, Option.map_eq_some_iff]
  constructor
  · intro h
    obtain ⟨t, ht, rfl⟩ := h
    exact ⟨t.start, ht⟩
  · intro h
    obtain ⟨start, ht⟩ := h
    exact ⟨_, ht, rfl⟩

namespace Method
variable {body : List Char} {ts : List Token}

theorem closer?_eq_some_iff {stop n : Nat} :
    closer? ts = some (stop, n) ↔ ∃ k, n = k + 1 ∧ ts[k]? = some ⟨.mark ')', stop⟩ ∧
      (∀ j < k, (ts.map Token.lexeme)[j]? ≠ some (.mark ')')) ∧
      (ts.map Token.lexeme)[k + 1]? = some (.mark '{') := by
  simp only [closer?_eq, Option.bind_eq_some_iff, List.findIdx?_eq_some_iff_getElem,
    List.getElem?_map, decide_eq_true_eq]
  constructor
  · intro h
    obtain ⟨k, ⟨hk, hclose, hfirst⟩, hn⟩ := h
    split at hn
    · rename_i hbrace
      rw [List.getElem?_eq_getElem hk] at hn
      cases hn
      refine ⟨k, rfl, ?_, ?_, hbrace⟩
      · rw [List.getElem?_eq_getElem hk, ← hclose]
      · intro j hj
        rw [List.getElem?_eq_getElem (by omega)]
        simpa using hfirst j hj
    · cases hn
  · intro h
    obtain ⟨k, rfl, hclose, hfirst, hbrace⟩ := h
    obtain ⟨hk, hget⟩ := List.getElem?_eq_some_iff.1 hclose
    refine ⟨k, ⟨hk, by rw [hget], ?_⟩, ?_⟩
    · intro j hj he
      apply hfirst j hj
      rw [List.getElem?_eq_getElem (by omega), Option.map_some, he]
    · rw [if_pos hbrace, hclose]
      rfl

/-- The same by positions in a longer list. -/
theorem closer?_drop_eq_some_iff {i stop n : Nat} :
    closer? (ts.drop i) = some (stop, n) ↔ ∃ c, i + n = c + 1 ∧ i ≤ c ∧
      ts[c]? = some ⟨.mark ')', stop⟩ ∧
      (∀ j, i ≤ j → j < c → (ts.map Token.lexeme)[j]? ≠ some (.mark ')')) ∧
      (ts.map Token.lexeme)[c + 1]? = some (.mark '{') := by
  simp only [closer?_eq_some_iff, List.map_drop, List.getElem?_drop]
  constructor
  · intro h
    obtain ⟨k, rfl, hclose, hfirst, hbrace⟩ := h
    refine ⟨i + k, by omega, by omega, hclose, fun j hle hlt => ?_, hbrace⟩
    simpa [Nat.add_sub_cancel' hle] using hfirst (j - i) (by omega)
  · intro h
    obtain ⟨c, hn, hle, hclose, hfirst, hbrace⟩ := h
    obtain ⟨k, rfl⟩ := Nat.exists_eq_add_of_le hle
    exact ⟨k, by omega, hclose, fun j hj => hfirst (i + j) (by omega) (by omega), hbrace⟩

/-- At position `i` a method stands whose list of parameters is closed at position `c`: a type that
is neither a modifier nor a keyword, a name and a parenthesis, and behind the first closing
parenthesis a brace. -/
structure Occurs (ls : List Lexeme) (i c : Nat) : Prop where
  type : ∃ word, ls[i]? = some (.word word) ∧ Modifier.ofWord? word = none ∧
    word ∉ statementKeywords
  name : ∃ word, ls[i + 1]? = some (.word word) ∧ isIdentifier word = true
  opener : ls[i + 2]? = some (.mark '(')
  behind : i + 2 < c
  closer : ls[c]? = some (.mark ')')
  first : ∀ j, i + 2 < j → j < c → ls[j]? ≠ some (.mark ')')
  brace : ls[c + 1]? = some (.mark '{')

/-- What is read of the method at position `i`, whose list of parameters is closed at position `c`;
the list is the text between the two parentheses. -/
structure Reads (body : List Char) (ts : List Token) (i c : Nat) (m : Method) : Prop where
  returnType : (ts.map Token.lexeme)[i]? = some (.word m.returnType)
  name : (ts.map Token.lexeme)[i + 1]? = some (.word m.name)
  modifier : m.modifier = modifierBefore (ts.map Token.lexeme) i
  parameters : ∃ paren stop list, ts[i + 2]? = some ⟨.mark '(', paren⟩ ∧
    ts[c]? = some ⟨.mark ')', stop⟩ ∧ Text.Between '(' ')' paren stop body list ∧
    m.parameters = ClassShape.parameters (String.ofList list)

/-- A method that begins before the list of another is closed is closed with it. -/
theorem Occurs.closer_eq {ls : List Lexeme} {i j c d : Nat} (hi : Occurs ls i c)
    (hj : Occurs ls j d) (hlt : i < j) (hle : j ≤ c) : d = c := by
  obtain ⟨type, htype, -⟩ := hj.type
  obtain ⟨name, hname, -⟩ := hj.name
  have h₀ : j ≠ c := fun he => by simp [he, hi.closer] at htype
  have h₁ : j + 1 ≠ c := fun he => by simp [he, hi.closer] at hname
  have h₂ : j + 2 ≠ c := fun he => by simpa [he, hi.closer] using hj.opener
  have hd : d ≤ c := by
    by_contra hgt
    exact hj.first c (by omega) (by omega) hi.closer
  by_contra hne
  have hbehind := hj.behind
  exact hi.first d (by omega) (by omega) hj.closer

/-- The first methods with their ends come in the order of their ends. -/
theorem Occurs.closer_lt {ls : List Lexeme} {i j c d : Nat} (hi : Occurs ls i c)
    (hj : Occurs ls j d) (hmin : ∀ k, Occurs ls k d → j ≤ k) (hlt : i < j) : c < d := by
  by_contra hle
  have hbehind := hj.behind
  have hsame := hi.closer_eq hj hlt (by omega)
  have := hmin i (hsame ▸ hi)
  omega

/-- Of the methods that are closed together, one is the first. -/
theorem Occurs.exists_first {ls : List Lexeme} {j c : Nat} (h : Occurs ls j c) :
    ∃ i ≤ j, Occurs ls i c ∧ ∀ k, Occurs ls k c → i ≤ k := by
  classical
  have hex : ∃ i, Occurs ls i c := ⟨j, h⟩
  exact ⟨Nat.find hex, Nat.find_min' hex h, Nat.find_spec hex, fun k => Nat.find_min' hex⟩

theorem unmodified?_eq_some_iff {m : Modifier} {o : Occurrence} {n : Nat} :
    unmodified? body m ts = some (o, n) ↔
      ∃ p q paren stop k, ts[0]? = some ⟨.word o.returnType, p⟩ ∧ ts[1]? = some ⟨.word o.name, q⟩ ∧
        ts[2]? = some ⟨.mark '(', paren⟩ ∧ closer? (ts.drop 3) = some (stop, k) ∧
        (isMemberType o.returnType = true ∧ isIdentifier o.name = true) ∧ n = k + 3 ∧
        o = ⟨m, o.returnType, o.name, Text.slice (paren + 1) stop body⟩ := by
  constructor
  · intro h
    unfold unmodified? at h
    split at h
    · split at h
      · rename_i hwords
        obtain ⟨⟨stop, k⟩, hcloser, he⟩ := Option.map_eq_some_iff.1 h
        cases he
        exact ⟨_, _, _, stop, k, rfl, rfl, rfl, hcloser, by simpa using hwords, rfl, rfl⟩
      · cases h
    · cases h
  · intro h
    obtain ⟨p, q, paren, stop, k, htype, hname, hparen, hcloser, hwords, rfl, ho⟩ := h
    obtain _ | ⟨t₀, _ | ⟨t₁, _ | ⟨t₂, rest⟩⟩⟩ := ts
    · cases htype
    · cases hname
    · cases hparen
    · cases htype
      cases hname
      cases hparen
      rw [List.drop_succ_cons, List.drop_succ_cons, List.drop_succ_cons, List.drop_zero] at hcloser
      rw [ho]
      simp [unmodified?, hwords, hcloser]

/-- A method is read exactly where one stands. -/
theorem exists_unmodified?_iff (body : List Char) (m : Modifier) {i n : Nat} :
    (∃ o, unmodified? body m (ts.drop i) = some (o, n)) ↔
      ∃ c, i + n = c + 1 ∧ Occurs (ts.map Token.lexeme) i c := by
  simp only [unmodified?_eq_some_iff, List.getElem?_drop, List.drop_drop, isMemberType_iff]
  constructor
  · intro h
    obtain ⟨o, p, q, paren, stop, k, htype, hname, hparen, hcloser, ⟨hmember, hid⟩, rfl, -⟩ := h
    obtain ⟨c, hk, hle, hclose, hfirst, hbrace⟩ := closer?_drop_eq_some_iff.1 hcloser
    exact ⟨c, by omega,
      { type := ⟨_, Token.getElem?_map_lexeme.2 ⟨p, htype⟩, hmember⟩
        name := ⟨_, Token.getElem?_map_lexeme.2 ⟨q, hname⟩, hid⟩
        opener := Token.getElem?_map_lexeme.2 ⟨paren, hparen⟩
        behind := by omega
        closer := Token.getElem?_map_lexeme.2 ⟨stop, hclose⟩
        first := fun j hlow => hfirst j (by omega)
        brace := hbrace }⟩
  · intro h
    obtain ⟨c, hn, hat⟩ := h
    obtain ⟨type, htype, hmember⟩ := hat.type
    obtain ⟨name, hname, hid⟩ := hat.name
    obtain ⟨p, htype⟩ := Token.getElem?_map_lexeme.1 htype
    obtain ⟨q, hname⟩ := Token.getElem?_map_lexeme.1 hname
    obtain ⟨paren, hparen⟩ := Token.getElem?_map_lexeme.1 hat.opener
    obtain ⟨stop, hclose⟩ := Token.getElem?_map_lexeme.1 hat.closer
    have hbehind := hat.behind
    have hcloser : closer? (ts.drop (i + 3)) = some (stop, n - 3) :=
      closer?_drop_eq_some_iff.2 ⟨c, by omega, by omega, hclose,
        fun j hlow => hat.first j (by omega), hat.brace⟩
    exact ⟨⟨m, type, name, Text.slice (paren + 1) stop body⟩, p, q, paren, stop, n - 3, htype, hname,
      hparen, hcloser, ⟨hmember, hid⟩, by omega, rfl⟩

/-- The record of a method holds what stands at its position. -/
theorem reads_of_unmodified? {o : Occurrence} {i n c : Nat}
    (h : unmodified? body .default ((Token.scan body).drop i) = some (o, n)) (hc : i + n = c + 1) :
    Reads body (Token.scan body) i c
      { o with modifier := modifierBefore (lexemes body) i : Occurrence }.method := by
  obtain ⟨p, q, paren, stop, k, htype, hname, hparen, hcloser, -, rfl, ho⟩ :=
    unmodified?_eq_some_iff.1 h
  rw [List.getElem?_drop] at htype hname hparen
  rw [List.drop_drop] at hcloser
  obtain ⟨d, hd, hle, hclose, -, -⟩ := closer?_drop_eq_some_iff.1 hcloser
  obtain rfl : d = c := by omega
  obtain ⟨list, hlist⟩ : ∃ list, Text.Between '(' ')' paren stop body list := by
    have hsuffix := List.drop_suffix (i + 2) (Token.scan body)
    rw [List.drop_eq_getElem?_toList_append, hparen, Option.toList_some,
      List.singleton_append] at hsuffix
    refine Token.exists_between hsuffix (List.mem_of_getElem? (i := d - (i + 3)) ?_)
    rwa [List.getElem?_drop, show i + 2 + 1 + (d - (i + 3)) = d by omega]
  have htext : o.parameterText = list := by
    rw [ho, ← hlist.slice_eq, show '('.utf8Size = 1 by decide]
  exact
    { returnType := Token.getElem?_map_lexeme.2 ⟨p, htype⟩
      name := Token.getElem?_map_lexeme.2 ⟨q, hname⟩
      modifier := rfl
      parameters := ⟨paren, stop, list, hparen, hclose, hlist, by
        simp [Occurrence.method, ClassShape.parameters, htext]⟩ }

theorem nested_unmodified? (body : List Char) (m : Modifier) : Nested (unmodified? body m) where
  moves _ _ _ h := unmodified?_pos h
  ends := by
    intro ts o n ho i hpos hlt o' k hk
    obtain ⟨c, hc, hat⟩ := (exists_unmodified?_iff body m (i := 0)).1 ⟨o, ho⟩
    obtain ⟨d, hd, hinner⟩ := (exists_unmodified?_iff body m).1 ⟨o', hk⟩
    have := hat.closer_eq hinner hpos (by omega)
    omega

theorem bare_unmodified? (body : List Char) :
    Bare Token.lexeme (unmodified? body .default) where
  nonempty := rfl
  first := by
    intro t ts r h
    obtain ⟨p, q, paren, stop, k, htype, -, -, -, hwords, -, -⟩ := unmodified?_eq_some_iff.1 h
    cases htype
    exact (isMemberType_iff.1 hwords.1).1
  last := by
    intro ts o n h
    obtain ⟨c, hc, hat⟩ := (exists_unmodified?_iff body .default (i := 0)).1 ⟨o, h⟩
    refine ⟨c, by omega, fun t ht => ?_⟩
    have hclose := hat.closer
    rw [List.getElem?_map, ht] at hclose
    rw [Option.some.inj hclose]
    rfl

theorem unmodified?_modifier (body : List Char) (m : Modifier) (ts : List Token) :
    unmodified? body m ts =
      (unmodified? body .default ts).map fun (o, n) => ({ o with modifier := m }, n) := by
  unfold unmodified?
  split
  · split
    · rw [Option.map_map]
      rfl
    · rfl
  · rfl

theorem match?_eq_withModifier (body : List Char) (ts : List Token) :
    match? body ts = withModifier Token.lexeme (unmodified? body .default)
      (fun m o => { o with modifier := m }) ts := by
  cases ts with
  | nil => rfl
  | cons first rest =>
    rw [match?, withModifier]
    cases first.lexeme.modifier? with
    | none => exact unmodified?_modifier body .default _
    | some m =>
      simp only [unmodified?_modifier body m, Option.map_map]
      rfl

/-- Of the methods that are closed together, the first is met unclaimed. -/
theorem exists_first?_iff (body : List Char) (m : Modifier) {i n : Nat} :
    (∃ o, first? (unmodified? body m) 0 ts i = some (o, n)) ↔
      ∃ c, i + n = c + 1 ∧ Occurs (ts.map Token.lexeme) i c ∧
        ∀ j, Occurs (ts.map Token.lexeme) j c → i ≤ j := by
  simp only [first?_eq_some_iff]
  constructor
  · intro h
    obtain ⟨o, ho, -, hclaim⟩ := h
    obtain ⟨c, hc, hat⟩ := (exists_unmodified?_iff body m).1 ⟨o, ho⟩
    refine ⟨c, hc, hat, fun j hj => ?_⟩
    by_contra hlt
    have hend : j + (c + 1 - j) = c + 1 := by
      have := hj.behind
      omega
    obtain ⟨o', ho'⟩ := (exists_unmodified?_iff body m).2 ⟨c, hend, hj⟩
    exact hclaim j (by omega) (Nat.zero_le j) _ ho' (hend.trans hc.symm)
  · intro h
    obtain ⟨c, hc, hat, hmin⟩ := h
    obtain ⟨o, ho⟩ := (exists_unmodified?_iff body m).2 ⟨c, hc, hat⟩
    refine ⟨o, ho, Nat.zero_le i, fun j hj _ r hr he => ?_⟩
    obtain ⟨d, hd, hother⟩ := (exists_unmodified?_iff body m).1 ⟨r.1, hr⟩
    obtain rfl : d = c := by omega
    have := hmin j hother
    omega

def found? (body : List Char) (i : Nat) : Option ((Nat × Nat) × Method) :=
  (first? (unmodified? body .default) 0 (Token.scan body) i).map fun (o, n) =>
    ((i, i + n - 1), { o with modifier := modifierBefore (lexemes body) i : Occurrence }.method)

def found (body : List Char) : List ((Nat × Nat) × Method) :=
  (List.range (Token.scan body).length).filterMap (found? body)

theorem mem_found {i c : Nat} : (i, c) ∈ (found body).map Prod.fst ↔
    Occurs (lexemes body) i c ∧ ∀ j, Occurs (lexemes body) j c → i ≤ j := by
  simp only [found, List.mem_map, List.mem_filterMap, List.mem_range]
  constructor
  · intro h
    obtain ⟨r, ⟨k, -, hk⟩, he⟩ := h
    obtain ⟨⟨o, n⟩, hfirst, rfl⟩ := Option.map_eq_some_iff.1 hk
    obtain ⟨rfl, rfl⟩ := Prod.mk.inj he
    obtain ⟨d, hd, hearliest⟩ := (exists_first?_iff body .default).1 ⟨o, hfirst⟩
    rwa [hd, Nat.add_sub_cancel]
  · intro h
    have hend : i + (c + 1 - i) = c + 1 := by
      have := h.1.behind
      omega
    obtain ⟨o, hfirst⟩ := (exists_first?_iff body .default).2 ⟨c, hend, h⟩
    obtain ⟨word, hword, -⟩ := h.1.type
    have hlt : i < (Token.scan body).length := by
      simpa [lexemes] using (List.getElem?_eq_some_iff.1 hword).1
    refine ⟨_, ⟨i, hlt, Option.map_eq_some_iff.2 ⟨_, hfirst, rfl⟩⟩, ?_⟩
    simp only [hend, Nat.add_sub_cancel]

theorem reads_of_mem_found {p : Nat × Nat} {m : Method} (h : (p, m) ∈ found body) :
    Reads body (Token.scan body) p.1 p.2 m := by
  obtain ⟨i, -, hi⟩ := List.mem_filterMap.1 h
  obtain ⟨⟨o, n⟩, hfirst, he⟩ := Option.map_eq_some_iff.1 hi
  obtain ⟨rfl, rfl⟩ := Prod.mk.inj he
  obtain ⟨ho, -⟩ := first?_eq_some_iff.1 hfirst
  have hmoves := unmodified?_pos ho
  exact reads_of_unmodified? ho (by omega)

theorem pairwise_found (body : List Char) :
    ((found body).map Prod.fst).Pairwise fun p q => p.1 < q.1 ∧ p.2 < q.2 := by
  have hstart : ((found body).map Prod.fst).Pairwise fun p q => p.1 < q.1 := by
    rw [List.pairwise_map, found, List.pairwise_filterMap]
    refine List.pairwise_lt_range.imp fun hlt r hr s hs => ?_
    obtain ⟨_, -, rfl⟩ := Option.map_eq_some_iff.1 hr
    obtain ⟨_, -, rfl⟩ := Option.map_eq_some_iff.1 hs
    exact hlt
  refine hstart.imp_of_mem fun {p q} hp hq hlt => ⟨hlt, ?_⟩
  exact (mem_found.1 hp).1.closer_lt (mem_found.1 hq).1 (mem_found.1 hq).2 hlt

end Method

theorem methods_eq_found (body : String) :
    methods body = (Method.found body.toList).map Prod.snd := by
  have hpattern : Method.match? body.toList = withModifier _ _ _ :=
    funext (Method.match?_eq_withModifier body.toList)
  rw [methods, Method.scan, Method.occurrences, hpattern,
    (Method.bare_unmodified? body.toList).sweep_first _ (Method.nested_unmodified? body.toList _),
    Method.found, List.map_filterMap, List.map_filterMap]
  refine List.filterMap_congr fun i _ => ?_
  rw [Method.found?, Option.map_map, Option.map_map]
  rfl

/-- Methods whose lists of parameters are closed by the same parenthesis count once, as the one that
begins first; the methods of a class body are these, in order, each with the modifier before it. -/
theorem methods_exact (body : String) :
    let ts := tokenize body
    let ls := ts.map Token.lexeme
    ∃ found : List (Nat × Nat),
      found.Pairwise (fun p q => p.1 < q.1 ∧ p.2 < q.2) ∧
      (∀ i c, (i, c) ∈ found ↔ Method.Occurs ls i c ∧ ∀ j, Method.Occurs ls j c → i ≤ j) ∧
      List.Forall₂ (fun p m => Method.Reads body.toList ts p.1 p.2 m) found (methods body) ∧
      ∀ j c, Method.Occurs ls j c → (j, c) ∉ found → ∃ i < j, (i, c) ∈ found := by
  intro ts ls
  refine ⟨(Method.found body.toList).map Prod.fst, Method.pairwise_found body.toList,
    fun i c => Method.mem_found, ?_, ?_⟩
  · rw [methods_eq_found, List.forall₂_map_left_iff, List.forall₂_map_right_iff, List.forall₂_same]
    exact fun r hr => Method.reads_of_mem_found hr
  · intro j c hj hnot
    obtain ⟨i, hle, hfirst⟩ := hj.exists_first
    have hfound := Method.mem_found.2 hfirst
    exact ⟨i, lt_of_le_of_ne hle fun he => hnot (he ▸ hfound), hfound⟩

/-- A method whose list is not closed takes in the one behind it. -/
example : methods "int f( private void g(int x) \x7b \x7d" =
    [⟨.default, "int", "f", [⟨"private void g(int", "x"⟩]⟩] := by
  decide +kernel

end ClassShape
