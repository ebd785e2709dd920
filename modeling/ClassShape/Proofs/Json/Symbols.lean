import ClassShape.Json.Printer
import ClassShape.Json.Symbol
import ClassShape.Proofs.Lexing
import Mathlib.Tactic.SplitIfs

/-! The symbols of a written value. Every escape is read back as the character it stands for, and
digits as the count they spell; so the text of a value, at any depth, is read as its brackets,
separators and atoms. -/
namespace ClassShape.Json

theorem readString_escape {cs rest : List Char} {c : Char} (h : escape? cs = some (c, rest)) :
    readString ('\\' :: cs) = (readString rest).map fun (s, after) => (c :: s, after) := by
  rw [readString, if_neg (by decide), if_pos rfl]
  split
  · next e r he =>
    cases he.symm.trans h
    rfl
  · next he => cases he.symm.trans h

theorem readString_plain {c : Char} (hquote : c ≠ '"') (hback : c ≠ '\\')
    (hcontrol : ¬ c.toNat < 32)
    (cs : List Char) :
    readString (c :: cs) = (readString cs).map fun (s, after) => (c :: s, after) := by
  rw [readString, if_neg hquote, if_neg hback, if_neg hcontrol]

theorem hexValue?_hexDigit : ∀ n < 16, hexValue? (hexDigit n) = some n := by
  decide

/-- A control character in four hexadecimal digits. -/
theorem escape?_control {c : Char} (h : c.toNat < 32) (cs : List Char) :
    escape? ('u' :: '0' :: '0' :: hexDigit (c.toNat / 16) :: hexDigit c.toNat :: cs) =
      some (c, cs) := by
  have hhigh := hexValue?_hexDigit (c.toNat / 16) (by omega)
  have hlow : hexValue? (hexDigit c.toNat) = some (c.toNat % 16) := by
    rw [← hexValue?_hexDigit (c.toNat % 16) (by omega), hexDigit, hexDigit, Nat.mod_mod]
  have hzero : hexValue? '0' = some 0 := by decide
  have hunit : unit? ('0' :: '0' :: hexDigit (c.toNat / 16) :: hexDigit c.toNat :: cs) =
      some (c.toNat, cs) := by
    have hvalue : (0 * 16 + 0) * 256 + c.toNat / 16 * 16 + c.toNat % 16 = c.toNat := by omega
    simp only [unit?, hzero, hhigh, hlow, Option.bind_eq_bind, Option.bind_some, hvalue,
      Option.pure_def]
  have hplain : isHighSurrogate c.toNat = false ∧ isLowSurrogate c.toNat = false := by
    simp only [isHighSurrogate, isLowSurrogate, Bool.and_eq_false_iff, decide_eq_false_iff_not]
    omega
  simp [escape?, hunit, hplain, Char.ofNat_toNat]

theorem readString_escapeChar (c : Char) (cs : List Char) :
    readString (escapeChar c ++ cs) = (readString cs).map fun (s, after) => (c :: s, after) := by
  have hchar : ∀ n, c.toNat = n → c = Char.ofNat n := fun n hn => by rw [← hn, Char.ofNat_toNat]
  unfold escapeChar
  split_ifs with hquote hback h8 h9 h10 h12 h13 hcontrol
  · subst hquote
    exact readString_escape rfl
  · subst hback
    exact readString_escape rfl
  · exact readString_escape (hchar 8 h8 ▸ rfl)
  · exact readString_escape (hchar 9 h9 ▸ rfl)
  · exact readString_escape (hchar 10 h10 ▸ rfl)
  · exact readString_escape (hchar 12 h12 ▸ rfl)
  · exact readString_escape (hchar 13 h13 ▸ rfl)
  · exact readString_escape (escape?_control hcontrol cs)
  · exact readString_plain hquote hback hcontrol cs

/-- A quoted text is read back, whatever it holds. -/
theorem readString_flatMap (s rest : List Char) :
    readString (s.flatMap escapeChar ++ '"' :: rest) = some (s, rest) := by
  induction s with
  | nil => rw [List.flatMap_nil, List.nil_append, readString, if_pos rfl]
  | cons c s ih =>
    rw [List.flatMap_cons, List.append_assoc, readString_escapeChar, ih]
    rfl

theorem digitChar_eq_zero : ∀ n < 10, Nat.digitChar n = '0' → n = 0 := by
  decide

/-- The digits of a count have no needless zero in front. -/
theorem head?_toDigits {n : Nat} (h : (Nat.toDigits 10 n).head? = some '0') : n = 0 := by
  induction n using Nat.strongRecOn with
  | ind n ih =>
    rw [Nat.toDigits_eq_if (by decide)] at h
    split at h
    · next hlt => exact digitChar_eq_zero n hlt (by simpa using h)
    · next hge =>
      have hrest : (Nat.toDigits 10 (n / 10)).head? = some '0' := by
        cases hd : Nat.toDigits 10 (n / 10) with
        | nil => exact absurd hd Nat.toDigits_ne_nil
        | cons d ds => simpa [hd] using h
      have hzero := ih (n / 10) (by omega) hrest
      omega

theorem isWhole_toDigits (n : Nat) : isWhole (Nat.toDigits 10 n) = true := by
  unfold isWhole
  split
  · next hnil => exact absurd hnil Nat.toDigits_ne_nil
  · rfl
  · next ds hne hcons =>
    have hzero : n = 0 := head?_toDigits (by simp [hcons])
    rw [hzero, Nat.toDigits_zero] at hcons
    exact absurd (List.cons.inj hcons).2.symm hne
  · rfl

theorem readNumber_toDigits (n : Nat) : readNumber (Nat.toDigits 10 n) = some (count n) := by
  have hdigits : ∀ c ∈ Nat.toDigits 10 n, c.isDigit = true := fun c hc =>
    Nat.isDigit_of_mem_toDigits (by decide) (by decide) hc
  have hwhole : unsigned? (Nat.toDigits 10 n) = some (Nat.toDigits 10 n, []) := by
    simp [unsigned?, List.takeWhile_eq_self_iff.2 hdigits, List.dropWhile_eq_nil_iff.2 hdigits,
      isWhole_toDigits, isFractionExponent, isExponent]
  have hvalue : natOfDigits (Nat.toDigits 10 n) = n :=
    Nat.ofDigitChars_eq_foldl.symm.trans Nat.ofDigitChars_ten_toDigits
  unfold readNumber
  split
  · next ds hds =>
    exact absurd (hdigits '-' (by simp [hds])) (by decide)
  · simp [hwhole, hvalue]

section Texts
variable {c : Char} {cs w : List Char} {s : Symbol} {ss : List Symbol} {v : Json}

def Stops (cs : List Char) : Prop :=
  ∀ c, cs.head? = some c → isNumberChar c = false ∧ c.isAlpha = false

theorem stops_cons (hnumber : isNumberChar c = false) (halpha : c.isAlpha = false)
    (cs : List Char) : Stops (c :: cs) := by
  intro d hd
  cases hd
  exact ⟨hnumber, halpha⟩

theorem symbols?_spaces (hw : ∀ c ∈ w, isSpace c = true) (cs : List Char) :
    symbols? (w ++ cs) = symbols? cs := by
  induction w with
  | nil => rfl
  | cons c w ih =>
    rw [List.cons_append, symbols?, if_pos (hw c (by simp)),
      ih fun d hd => hw d (List.mem_cons_of_mem c hd)]

theorem symbols?_newline (depth : Nat) (cs : List Char) :
    symbols? (newline depth ++ cs) = symbols? cs := by
  apply symbols?_spaces
  intro c hc
  rcases List.mem_cons.1 hc with rfl | hc
  · decide
  · rw [List.eq_of_mem_replicate hc]
    decide

theorem symbols?_mark (hspace : isSpace c = false) (hmark : punctuation? c = some s)
    (h : symbols? cs = some ss) : symbols? (c :: cs) = some (s :: ss) := by
  simp [symbols?, hspace, hmark, h]

theorem symbols?_quote (text : String) (h : symbols? cs = some ss) :
    symbols? (quote text ++ cs) = some (.atom (string text) :: ss) := by
  have hread := readString_flatMap text.toList cs
  have hquote : quote text ++ cs = '"' :: (text.toList.flatMap escapeChar ++ '"' :: cs) := by
    simp [quote]
  rw [hquote, symbols?, if_neg (by decide), show punctuation? '"' = none from rfl]
  dsimp only
  rw [if_pos rfl]
  split
  · next read rest hr =>
    cases hr.symm.trans hread
    simp [h]
  · next hr => cases hr.symm.trans hread

theorem not_mark_of_isNumberChar (h : isNumberChar c = true) :
    isSpace c = false ∧ punctuation? c = none ∧ c ≠ '"' := by
  have hne : ∀ d, isNumberChar d = false → c ≠ d := by
    intro d hd he
    simp [← he, h] at hd
  refine ⟨?_, ?_, hne '"' (by decide)⟩
  · simp [isSpace, hne ' ' (by decide), hne '\t' (by decide), hne '\n' (by decide),
      hne '\r' (by decide)]
  · unfold punctuation?
    split
    · exact absurd h (by decide)
    · exact absurd h (by decide)
    · exact absurd h (by decide)
    · exact absurd h (by decide)
    · exact absurd h (by decide)
    · exact absurd h (by decide)
    · rfl

theorem symbols?_numeral (hw : ∀ c ∈ w, isNumberChar c = true) (hv : readNumber w = some v)
    (hcs : Stops cs) (h : symbols? cs = some ss) : symbols? (w ++ cs) = some (.atom v :: ss) := by
  cases w with
  | nil => cases hv
  | cons c w =>
    have hc := hw c (by simp)
    obtain ⟨hspace, hmark, hquote⟩ := not_mark_of_isNumberChar hc
    obtain ⟨ht, hd⟩ := Text.takeWhile_run (fun d hd => hw d (List.mem_cons_of_mem c hd))
      fun d hd => (hcs d hd).1
    simp [symbols?, hspace, hmark, hquote, hc, ht, hd, hv, h]

theorem symbols?_literal (hspace : isSpace c = false) (hmark : punctuation? c = none)
    (hquote : c ≠ '"') (hnumber : isNumberChar c = false) (hw : w.all Char.isAlpha = true)
    (hv : literal? (c :: w) = some v) (hcs : Stops cs) (h : symbols? cs = some ss) :
    symbols? (c :: (w ++ cs)) = some (.atom v :: ss) := by
  obtain ⟨ht, hd⟩ := Text.takeWhile_run (List.all_eq_true.1 hw) fun d hd => (hcs d hd).2
  simp [symbols?, hspace, hmark, hquote, hnumber, ht, hd, hv, h]

end Texts

mutual

def spell : Json → List Symbol
  | array [] => [.leftBracket, .rightBracket]
  | array (j :: js) => .leftBracket :: (spell j ++ (spellItems js ++ [.rightBracket]))
  | object [] => [.leftBrace, .rightBrace]
  | object ((k, v) :: fs) =>
    .leftBrace :: .atom (string k) :: .colon :: (spell v ++ (spellFields fs ++ [.rightBrace]))
  | null => [.atom null]
  | bool b => [.atom (bool b)]
  | count n => [.atom (count n)]
  | number spelling => [.atom (number spelling)]
  | string s => [.atom (string s)]

def spellItems : List Json → List Symbol
  | [] => []
  | j :: js => .comma :: (spell j ++ spellItems js)

def spellFields : List (String × Json) → List Symbol
  | [] => []
  | (k, v) :: fs => .comma :: .atom (string k) :: .colon :: (spell v ++ spellFields fs)

end

inductive Legible : Json → Prop where
  | null : Legible null
  | bool (b : Bool) : Legible (bool b)
  | count (n : Nat) : Legible (count n)
  | number {spelling : String} (hchars : ∀ c ∈ spelling.toList, isNumberChar c = true)
    (hread : readNumber spelling.toList = some (number spelling)) : Legible (number spelling)
  | string (s : String) : Legible (string s)
  | array {items : List Json} (h : ∀ j ∈ items, Legible j) : Legible (array items)
  | object {fields : List (String × Json)} (h : ∀ f ∈ fields, Legible f.2) :
    Legible (object fields)

/-- The text of the value is read as its symbols, wherever it stands. -/
def Spelled (j : Json) : Prop :=
  ∀ depth cs ss, Stops cs → symbols? cs = some ss →
    symbols? (prettyChars depth j ++ cs) = some (spell j ++ ss)

theorem stops_items (depth : Nat) (js : List Json) {cs : List Char} (hcs : Stops cs) :
    Stops (prettyItems depth js ++ cs) := by
  cases js with
  | nil => exact hcs
  | cons j js => exact stops_cons (by decide) (by decide) _

theorem stops_fields (depth : Nat) (fs : List (String × Json)) {cs : List Char} (hcs : Stops cs) :
    Stops (prettyFields depth fs ++ cs) := by
  cases fs with
  | nil => exact hcs
  | cons f fs => exact stops_cons (by decide) (by decide) _

theorem symbols?_items (depth : Nat) {js : List Json} (hjs : ∀ j ∈ js, Spelled j) {cs : List Char}
    {ss : List Symbol} (hcs : Stops cs) (h : symbols? cs = some ss) :
    symbols? (prettyItems depth js ++ cs) = some (spellItems js ++ ss) := by
  induction js with
  | nil => exact h
  | cons j js ih =>
    have hrest := ih fun i hi => hjs i (List.mem_cons_of_mem j hi)
    have hitem := hjs j (by simp) depth _ _ (stops_items depth js hcs) hrest
    rw [← symbols?_newline depth] at hitem
    have hcomma := symbols?_mark (c := ',') (by decide) rfl hitem
    simpa [prettyItems, spellItems] using hcomma

theorem symbols?_field (depth : Nat) (k : String) {v : Json} (hv : Spelled v) {cs : List Char}
    {ss : List Symbol} (hcs : Stops cs) (h : symbols? cs = some ss) :
    symbols? (quote k ++ ':' :: ' ' :: (prettyChars depth v ++ cs)) =
      some (.atom (string k) :: .colon :: (spell v ++ ss)) := by
  have hvalue := hv depth cs ss hcs h
  rw [← symbols?_spaces (w := [' ']) (by simp [isSpace])] at hvalue
  exact symbols?_quote k (symbols?_mark (by decide) rfl hvalue)

theorem symbols?_fields (depth : Nat) {fs : List (String × Json)} (hfs : ∀ f ∈ fs, Spelled f.2)
    {cs : List Char} {ss : List Symbol} (hcs : Stops cs) (h : symbols? cs = some ss) :
    symbols? (prettyFields depth fs ++ cs) = some (spellFields fs ++ ss) := by
  induction fs with
  | nil => exact h
  | cons f fs ih =>
    obtain ⟨k, v⟩ := f
    have hrest := ih fun g hg => hfs g (List.mem_cons_of_mem _ hg)
    have hfield := symbols?_field depth k (hfs (k, v) (by simp)) (stops_fields depth fs hcs) hrest
    rw [← symbols?_newline depth] at hfield
    have hcomma := symbols?_mark (c := ',') (by decide) rfl hfield
    simpa [prettyFields, spellFields] using hcomma

/-- The pretty text of a value is read as its symbols. -/
theorem Legible.spelled {j : Json} (hj : Legible j) : Spelled j := by
  induction hj with
  | null =>
    intro depth cs ss
    exact symbols?_literal (by decide) rfl (by decide) (by decide) (by decide) rfl
  | bool b =>
    intro depth cs ss
    cases b with
    | true => exact symbols?_literal (by decide) rfl (by decide) (by decide) (by decide) rfl
    | false => exact symbols?_literal (by decide) rfl (by decide) (by decide) (by decide) rfl
  | count n =>
    intro depth cs ss
    refine symbols?_numeral (fun c hc => ?_) (readNumber_toDigits n)
    simp [isNumberChar, Nat.isDigit_of_mem_toDigits (by decide) (by decide) hc]
  | number hchars hread =>
    intro depth cs ss
    exact symbols?_numeral hchars hread
  | string s =>
    intro depth cs ss _
    exact symbols?_quote s
  | @array items _ ih =>
    intro depth cs ss hcs h
    have hclose := symbols?_mark (c := ']') (by decide) rfl h
    cases items with
    | nil => exact symbols?_mark (c := '[') (by decide) rfl hclose
    | cons j js =>
      rw [← symbols?_newline depth] at hclose
      have hstops : Stops (newline depth ++ ']' :: cs) := stops_cons (by decide) (by decide) _
      have hitems := symbols?_items (depth + 1) (fun i hi => ih i (List.mem_cons_of_mem j hi))
        hstops hclose
      have hfirst := ih j (by simp) (depth + 1) _ _ (stops_items _ js hstops) hitems
      rw [← symbols?_newline (depth + 1)] at hfirst
      simpa [prettyChars, spell] using symbols?_mark (c := '[') (by decide) rfl hfirst
  | @object fields _ ih =>
    intro depth cs ss hcs h
    have hclose := symbols?_mark (c := '}') (by decide) rfl h
    cases fields with
    | nil => exact symbols?_mark (c := '{') (by decide) rfl hclose
    | cons f fs =>
      obtain ⟨k, v⟩ := f
      rw [← symbols?_newline depth] at hclose
      have hstops : Stops (newline depth ++ '}' :: cs) := stops_cons (by decide) (by decide) _
      have hfields := symbols?_fields (depth + 1) (fun g hg => ih g (List.mem_cons_of_mem _ hg))
        hstops hclose
      have hfirst := symbols?_field (depth + 1) k (ih (k, v) (by simp)) (stops_fields _ fs hstops)
        hfields
      rw [← symbols?_newline (depth + 1)] at hfirst
      simpa [prettyChars, spell] using symbols?_mark (c := '{') (by decide) rfl hfirst

theorem Legible.symbols?_pretty {j : Json} (hj : Legible j) :
    symbols? j.pretty.toList = some (spell j) := by
  have hend : symbols? [] = some [] := by rw [symbols?]
  simpa [pretty] using hj.spelled 0 [] [] (fun c hc => by cases hc) hend

end ClassShape.Json
