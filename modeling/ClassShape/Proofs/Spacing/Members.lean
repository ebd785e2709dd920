import ClassShape.Proofs.Checked.Members
import ClassShape.Proofs.Spacing.Tokens

/-! Members of a squeezed class body. Patterns look at lexemes and only pass offsets on, so they
match in the squeezed body where they match in the body; a parameter list is cut at the same commas
into the same words. -/
namespace ClassShape

/-- A sweep over moved elements finds the moved matches, if the pattern does so everywhere. -/
theorem sweepFrom_move {α α' β β' : Type} {pattern : List α → Option (β × Nat)}
    {pattern' : List α' → Option (β' × Nat)} {g : α → α'} {h : β → β'} {xs : List α}
    (hpattern : ∀ ys, ys <:+ xs → pattern' (ys.map g) = (pattern ys).map fun (b, n) => (h b, n))
    (skip : Nat) : sweepFrom pattern' skip (xs.map g) = (sweepFrom pattern skip xs).map h := by
  induction xs generalizing skip with
  | nil => rfl
  | cons x xs ih =>
    have hrest := ih fun ys hys => hpattern ys (hys.trans (List.suffix_cons x xs))
    cases skip with
    | succ skip => exact hrest skip
    | zero =>
      have hfirst := hpattern (x :: xs) List.suffix_rfl
      rw [List.map_cons] at hfirst
      rw [List.map_cons, sweepFrom, sweepFrom, hfirst]
      cases pattern (x :: xs) with
      | none => exact hrest 0
      | some r => exact congrArg (h r.1 :: ·) (hrest (r.2 - 1))

theorem lexemes_squeeze (cs : List Char) : lexemes (Text.squeeze cs) = lexemes cs := by
  rw [lexemes, Token.scan_squeeze, Token.map_lexeme_move, lexemes]

theorem Attribute.scan_squeeze (body : List Char) : scan (Text.squeeze body) = scan body :=
  congrArg (sweep match?) (lexemes_squeeze body)

namespace Parameter
open Text (squeeze Flush)

theorem net_blanks (b : Blanks) : net b.chars = 0 := by
  refine b.chars_induction rfl fun c blanks hc ih => ?_
  rw [net_cons, (of_isBlank hc).2, ih]
  rfl

theorem cutFrom_blanks (b : Blanks) (depth : Int) (cs : List Char) :
    cutFrom depth (b.chars ++ cs) = (b.chars ++ (cutFrom depth cs).1, (cutFrom depth cs).2) := by
  rw [cutFrom_append (enclosed_of_notMem (b.notMem (by decide))), net_blanks, Int.add_zero]

theorem cutFrom_isPrefix (depth : Int) (cs : List Char) : (cutFrom depth cs).1 <+: cs := by
  induction cs generalizing depth with
  | nil => exact List.nil_prefix
  | cons c cs ih =>
    by_cases hcut : c = ',' ∧ depth ≤ 0
    · simp only [cutFrom, if_pos hcut]
      exact List.nil_prefix
    · simp only [cutFrom, if_neg hcut]
      exact List.cons_prefix_cons.2 ⟨rfl, ih _⟩

/-- No cut is made at a blank, and so the fragments are squeezed one by one. -/
theorem cutFrom_squeeze (depth : Int) (cs : List Char) :
    cutFrom depth (squeeze cs) =
      (squeeze (cutFrom depth cs).1, (cutFrom depth cs).2.map squeeze) := by
  induction cs using Text.gap_induction generalizing depth with
  | nil => simp [cutFrom]
  | gap g cs hcs ih =>
    have hfirst : Flush (cutFrom depth cs).1 := hcs.of_isPrefix (cutFrom_isPrefix depth cs)
    have hspace := cutFrom_blanks (Gap.single ' ' (by decide)).toBlanks depth (squeeze cs)
    rw [Text.squeeze_gap g hcs, cutFrom_blanks, Text.squeeze_gap g hfirst]
    rw [ih] at hspace
    exact hspace
  | char c cs hc ih =>
    rw [Text.squeeze_char hc]
    by_cases hcut : c = ',' ∧ depth ≤ 0
    · simp only [cutFrom, ih, if_pos hcut, Text.squeeze_nil, List.map_cons]
    · simp only [cutFrom, ih, if_neg hcut, Text.squeeze_char hc]

theorem read_squeeze (fragment : List Char) : read (squeeze fragment) = read fragment := by
  rw [read, Text.words_squeeze, read]

theorem scan_squeeze (list : List Char) : scan (squeeze list) = scan list := by
  have hfragments : fragments (squeeze list) = (fragments list).map squeeze := by
    rw [fragments, cutFrom_squeeze, fragments, List.map_cons]
  rw [scan, hfragments, List.filterMap_map, scan]
  exact List.filterMap_congr fun fragment _ => congrArg Reading.parameter? (read_squeeze fragment)

end Parameter

namespace Method
open Text (squeeze squeezedOffset)
variable {body : List Char} {ts : List Token}

theorem closer?_move (f : Nat → Nat) (ts : List Token) :
    closer? (ts.map (Token.move f)) = (closer? ts).map fun (stop, n) => (f stop, n) := by
  rw [closer?_eq, closer?_eq, List.findIdx?_map]
  have hmark : (fun t : Token => decide (t.lexeme = .mark ')')) ∘ Token.move f =
      fun t => decide (t.lexeme = .mark ')') := rfl
  rw [hmark]
  cases ts.findIdx? (·.lexeme = .mark ')') with
  | none => rfl
  | some i =>
    have hnext : ((ts.map (Token.move f))[i + 1]?).map Token.lexeme =
        (ts[i + 1]?).map Token.lexeme := by
      rw [List.getElem?_map, Option.map_map]
      rfl
    simp only [Option.bind_some, hnext]
    split
    · rw [List.getElem?_map, Option.map_map, Option.map_map]
      rfl
    · rfl

theorem closer?_mem {stop n : Nat} (h : closer? ts = some (stop, n)) : ⟨.mark ')', stop⟩ ∈ ts := by
  fun_induction closer? ts generalizing n with
  | case1 => simp at h
  | case2 stop' brace rest =>
    cases h
    simp
  | case3 => simp at h
  | case4 t rest hnot ih =>
    obtain ⟨r, hr, he⟩ := Option.map_eq_some_iff.1 h
    cases he
    exact List.mem_cons_of_mem t (ih hr)

def Occurrence.squeezed (o : Occurrence) : Occurrence :=
  { o with parameterText := squeeze o.parameterText }

/-- The parameter list is the squeezed one, cut between the moved parentheses. -/
theorem unmodified?_squeeze (hts : ts <:+ Token.scan body) (m : Modifier) :
    unmodified? (squeeze body) m (ts.map (Token.move (squeezedOffset body))) =
      (unmodified? body m ts).map fun (o, n) => (o.squeezed, n) := by
  by_cases hshape : ∃ type i name j paren rest,
      ts = ⟨.word type, i⟩ :: ⟨.word name, j⟩ :: ⟨.mark '(', paren⟩ :: rest
  · obtain ⟨type, i, name, j, paren, rest, rfl⟩ := hshape
    have hparen : ⟨.mark '(', paren⟩ :: rest <:+ Token.scan body :=
      ((List.suffix_cons _ _).trans (List.suffix_cons _ _)).trans hts
    simp only [List.map_cons, Token.move, unmodified?]
    split
    · rw [closer?_move]
      cases hcloser : closer? rest with
      | none => rfl
      | some r =>
        obtain ⟨inside, hinside⟩ := Token.exists_between hparen (closer?_mem hcloser)
        have hslice := hinside.slice_squeeze (by decide) (by decide)
        rw [show '('.utf8Size = 1 by decide] at hslice
        simp only [Option.map_some, hslice, Occurrence.squeezed]
    · rfl
  · have hother : ∀ type i name j paren rest,
        ts = ⟨.word type, i⟩ :: ⟨.word name, j⟩ :: ⟨.mark '(', paren⟩ :: rest → False :=
      fun type i name j paren rest heq => hshape ⟨type, i, name, j, paren, rest, heq⟩
    have hmoved : ∀ type i name j paren rest, ts.map (Token.move (squeezedOffset body)) =
        ⟨.word type, i⟩ :: ⟨.word name, j⟩ :: ⟨.mark '(', paren⟩ :: rest → False := by
      intro type i name j paren rest heq
      obtain _ | ⟨⟨l₁, i⟩, _ | ⟨⟨l₂, j⟩, _ | ⟨⟨l₃, k⟩, ts⟩⟩⟩ := ts <;> simp [Token.move] at heq
      obtain ⟨⟨rfl, -⟩, ⟨rfl, -⟩, ⟨rfl, -⟩, -⟩ := heq
      exact hshape ⟨_, _, _, _, _, _, rfl⟩
    rw [unmodified?.eq_2 _ _ _ hmoved, unmodified?.eq_2 _ _ _ hother]
    rfl

theorem match?_squeeze (hts : ts <:+ Token.scan body) :
    match? (squeeze body) (ts.map (Token.move (squeezedOffset body))) =
      (match? body ts).map fun (o, n) => (o.squeezed, n) := by
  cases ts with
  | nil => rfl
  | cons first rest =>
    have hmodifier : (first.move (squeezedOffset body)).lexeme.modifier? =
        first.lexeme.modifier? := rfl
    rw [List.map_cons, match?, match?, hmodifier]
    cases first.lexeme.modifier? with
    | none => exact unmodified?_squeeze hts .default
    | some m =>
      have hrest : rest <:+ Token.scan body := (List.suffix_cons first rest).trans hts
      simp only [unmodified?_squeeze hrest m, Option.map_map]
      rfl

theorem occurrences_squeeze (body : List Char) :
    occurrences (squeeze body) = (occurrences body).map Occurrence.squeezed := by
  rw [occurrences, sweep, Token.scan_squeeze]
  exact sweepFrom_move (fun ts hts => match?_squeeze hts) 0

theorem scan_squeeze (body : List Char) : scan (squeeze body) = scan body := by
  rw [scan, occurrences_squeeze, List.map_map, scan]
  refine List.map_congr_left fun o _ => ?_
  simp [Occurrence.method, Occurrence.squeezed, Parameter.scan_squeeze]

end Method
end ClassShape
