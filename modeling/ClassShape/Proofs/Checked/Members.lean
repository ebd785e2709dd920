import ClassShape.ClassRecord
import ClassShape.Proofs.Checked.Bodies

/-! Members read by positions: attributes, methods and the parameters of methods. The list of
parameters lies between two tokens of the body, and a depth counted in 32 bits is enough as long as
the angle brackets are few enough. -/
namespace ClassShape

def angles (cs : List Char) : Nat := cs.count '<' + cs.count '>'

/-- The angle brackets are few enough to be counted in 32 bits. -/
def Fits (cs : List Char) : Prop := angles cs < 2147483648

instance (cs : List Char) : Decidable (Fits cs) := inferInstanceAs (Decidable (_ < _))

theorem Fits.of_sublist {cs ds : List Char} (h : Fits cs) (hsub : ds.Sublist cs) : Fits ds := by
  have hopen := hsub.count_le '<'
  have hclose := hsub.count_le '>'
  rw [Fits, angles] at h ⊢
  omega

theorem angles_cons (c : Char) (cs : List Char) :
    angles (c :: cs) = (Parameter.depthStep c).natAbs + angles cs := by
  rw [angles, angles, Parameter.depthStep]
  by_cases ho : c = '<'
  · subst ho
    rw [if_pos rfl, List.count_cons_self, List.count_cons_of_ne (by decide)]
    omega
  · by_cases hc : c = '>'
    · subst hc
      rw [if_neg ho, if_pos rfl, List.count_cons_self, List.count_cons_of_ne (by decide)]
      omega
    · rw [if_neg ho, if_neg hc, List.count_cons_of_ne ho, List.count_cons_of_ne hc]
      omega

namespace Text

theorem dropBytes_sublist (n : Nat) (cs : List Char) : (dropBytes n cs).Sublist cs := by
  fun_induction dropBytes n cs with
  | case1 => exact .refl _
  | case2 => exact .refl _
  | case3 n c cs ih => exact ih.cons c

theorem takeBytes_sublist (n : Nat) (cs : List Char) : (takeBytes n cs).Sublist cs := by
  fun_induction takeBytes n cs with
  | case1 => exact List.nil_sublist _
  | case2 => exact .refl _
  | case3 n c cs ih => exact ih.cons_cons c

theorem slice_sublist (start stop : Nat) (cs : List Char) : (slice start stop cs).Sublist cs :=
  (takeBytes_sublist _ _).trans (dropBytes_sublist _ _)

end Text

theorem Attribute.match?_pos {ls : List Lexeme} {a : Attribute} {n : Nat}
    (h : match? ls = some (a, n)) : 0 < n := by
  cases ls with
  | nil => simp [match?] at h
  | cons first rest =>
    rw [match?] at h
    split at h
    · obtain ⟨r, _, hr⟩ := Option.map_eq_some_iff.1 h
      simp only [Prod.mk.injEq] at hr
      omega
    · obtain ⟨r, _, hr⟩ := Option.map_eq_some_iff.1 h
      simp only [Prod.mk.injEq] at hr
      omega

theorem Method.unmodified?_pos {body : List Char} {m : Modifier} {ts : List Token}
    {o : Occurrence} {n : Nat} (h : unmodified? body m ts = some (o, n)) : 0 < n := by
  unfold unmodified? at h
  split at h
  · split at h
    · obtain ⟨r, _, hr⟩ := Option.map_eq_some_iff.1 h
      simp only [Prod.mk.injEq] at hr
      omega
    · simp at h
  · simp at h

theorem Method.match?_pos {body : List Char} {ts : List Token} {o : Occurrence} {n : Nat}
    (h : match? body ts = some (o, n)) : 0 < n := by
  cases ts with
  | nil => simp [match?] at h
  | cons first rest =>
    rw [match?] at h
    split at h
    · obtain ⟨r, _, hr⟩ := Option.map_eq_some_iff.1 h
      simp only [Prod.mk.injEq] at hr
      omega
    · exact unmodified?_pos h

namespace Checked

/-- The fragments of `list` from offset `start` on, of which those up to offset `pos` are passed
at angle-bracket depth `depth`. -/
def fragmentsFrom (list : List Char) (depth : Int) (start pos : Nat) :
    List Char → Checked (List (List Char))
  | [] => do
    let last ← sliceFrom start list
    .ok [last]
  | c :: cs => do
    let next ← int32 (depth + Parameter.depthStep c)
    if c = ',' ∧ depth ≤ 0 then do
      let fragment ← slice start pos list
      let others ← fragmentsFrom list next (pos + 1) (pos + c.utf8Size) cs
      .ok (fragment :: others)
    else fragmentsFrom list next start (pos + c.utf8Size) cs

def readFragment (fragment : List Char) : Checked Parameter.Reading := do
  let words := (Text.words fragment).map String.ofList
  let words ← if words.head? = some "final" then removeFirst words else .ok words
  .ok (Parameter.ofWords words)

def parameterList (list : List Char) : Checked (List Parameter) := do
  let fragments ← fragmentsFrom list 0 0 0 list
  let readings ← fragments.mapM readFragment
  .ok (readings.filterMap Parameter.Reading.parameter?)

def parameters (list : String) : Checked (List Parameter) := parameterList list.toList

def attribute? : List Lexeme → Checked (Option (Attribute × Nat))
  | [] => .ok none
  | first :: others =>
    match first.modifier? with
    | some m => do
      let rest ← dropTo 1 (first :: others)
      .ok ((Attribute.unmodified? rest).map fun (type, name) => (⟨m, type, name⟩, 1 + 3))
    | none =>
      .ok ((Attribute.unmodified? (first :: others)).map fun (type, name) =>
        (⟨.default, type, name⟩, 3))

def attributes (body : String) : Checked (List Attribute) := do
  let tokens ← tokenize body
  sweepFrom attribute? (tokens.map Token.lexeme) 0

def unmodified? (body : List Char) (modifier : Modifier) (skipped : Nat) (tokens : List Token) :
    Checked (Option (Method × Nat)) :=
  match tokens with
  | ⟨.word type, _⟩ :: ⟨.word name, _⟩ :: ⟨.mark '(', paren⟩ :: rest =>
    if isMemberType type && isIdentifier name then
      match rest.findIdx? (·.lexeme = .mark ')') with
      | none => .ok none
      | some i =>
        let close := i + 3
        if (tokens[close + 1]?).map Token.lexeme = some (.mark '{') then do
          let closer ← get close tokens
          let list ← slice (Token.stop ⟨.mark '(', paren⟩) closer.start body
          let parameters ← parameterList list
          .ok (some (⟨modifier, type, name, parameters⟩, skipped + close + 1))
        else .ok none
    else .ok none
  | _ => .ok none

def method? (body : List Char) : List Token → Checked (Option (Method × Nat))
  | [] => .ok none
  | first :: others =>
    match first.lexeme.modifier? with
    | some m => do
      let rest ← dropTo 1 (first :: others)
      unmodified? body m 1 rest
    | none => unmodified? body .default 0 (first :: others)

def methods (body : String) : Checked (List Method) := do
  let tokens ← tokenize body
  sweepFrom (method? body.toList) tokens 0

/-- A depth that leaves room for the brackets to come stays in range, and leaves that room. -/
theorem int32_depth {depth : Int} {c : Char} {cs : List Char}
    (h : depth.natAbs + angles (c :: cs) < 2147483648) :
    int32 (depth + Parameter.depthStep c) = .ok (depth + Parameter.depthStep c) ∧
      (depth + Parameter.depthStep c).natAbs + angles cs < 2147483648 := by
  rw [angles_cons] at h
  refine ⟨if_pos ?_, ?_⟩
  · omega
  · omega

/-- The fragment in hand is `current`, begun behind `before`. -/
theorem fragmentsFrom_eq {list before current cs : List Char} {depth : Int} {start pos : Nat}
    (hlist : list = before ++ (current ++ cs)) (hstart : Text.byteLength before = start)
    (hpos : start + Text.byteLength current = pos)
    (hfits : depth.natAbs + angles cs < 2147483648) :
    fragmentsFrom list depth start pos cs =
      .ok ((current ++ (Parameter.cutFrom depth cs).1) :: (Parameter.cutFrom depth cs).2) := by
  induction cs generalizing before current depth start pos with
  | nil =>
    rw [fragmentsFrom, sliceFrom_append hlist hstart]
    rfl
  | cons c cs ih =>
    obtain ⟨hnext, hfits⟩ := int32_depth hfits
    rw [fragmentsFrom, hnext, ok_bind, Parameter.cutFrom]
    by_cases hcut : c = ',' ∧ depth ≤ 0
    · -- The fragment in hand ends here, and an empty one begins behind the comma.
      obtain ⟨rfl, hdepth⟩ := hcut
      have hothers : fragmentsFrom list (depth + Parameter.depthStep ',') (pos + 1)
          (pos + ','.utf8Size) cs = _ :=
        ih (show list = (before ++ current ++ [',']) ++ ([] ++ cs) by simp [hlist])
          (by rw [← hpos, ← hstart]; simp only [Text.byteLength_append]; rfl) rfl hfits
      simp only [hdepth, and_self, if_true, slice_append hlist hstart hpos, ok_bind, hothers,
        List.append_nil, List.nil_append]
    · have hcurrent : list = before ++ ((current ++ [c]) ++ cs) := by simp [hlist]
      have hothers := ih hcurrent hstart
        (show _ = pos + c.utf8Size by rw [Text.byteLength_append, ← hpos, Nat.add_assoc]; rfl) hfits
      simp only [if_neg hcut, hothers, List.append_assoc, List.singleton_append]

theorem readFragment_eq (fragment : List Char) :
    readFragment fragment = .ok (Parameter.read fragment) := by
  rw [readFragment, Parameter.read]
  cases hwords : (Text.words fragment).map String.ofList with
  | nil => rfl
  | cons w ws =>
    by_cases hw : w = "final"
    · subst hw
      rfl
    · have hdrop : Parameter.dropFinal (w :: ws) = w :: ws := by
        rw [Parameter.dropFinal]
        simpa using hw
      simp [hw, hdrop]

theorem parameterList_eq {list : List Char} (h : Fits list) :
    parameterList list = .ok (Parameter.scan list) := by
  have hfragments : fragmentsFrom list 0 0 0 list = .ok (Parameter.fragments list) :=
    fragmentsFrom_eq (show list = [] ++ ([] ++ list) from rfl) rfl rfl (by simpa [Fits] using h)
  rw [parameterList, hfragments, ok_bind, mapM_eq fun f _ => readFragment_eq f, ok_bind,
    List.filterMap_map]
  rfl

theorem attribute?_eq (ls : List Lexeme) : attribute? ls = .ok (Attribute.match? ls) := by
  cases ls with
  | nil => rfl
  | cons first others =>
    rw [attribute?, Attribute.match?]
    cases first.modifier? with
    | none => rfl
    | some m => rw [dropTo_of_le (by simp)]; rfl

theorem attributes_eq (body : String) : attributes body = .ok (ClassShape.attributes body) := by
  rw [attributes, tokenize_eq, ok_bind]
  exact sweepFrom_eq (fun _ => attribute?_eq _) (fun _ _ _ => Attribute.match?_pos) 0

end Checked

namespace Method

theorem closer?_eq (ts : List Token) :
    closer? ts = (ts.findIdx? (·.lexeme = .mark ')')).bind fun i =>
      if (ts[i + 1]?).map Token.lexeme = some (.mark '{') then
        (ts[i]?).map fun t => (t.start, i + 1)
      else none := by
  fun_induction closer? ts with
  | case1 => rfl
  | case2 stop brace rest => simp [List.findIdx?_cons]
  | case3 stop rest hnot =>
    cases rest with
    | nil => simp [List.findIdx?_cons]
    | cons t rest =>
      have hbrace : t.lexeme ≠ .mark '{' := fun he => hnot t.start rest (by rw [← he])
      simp [List.findIdx?_cons, hbrace]
  | case4 t rest hnot ih =>
    have hcloser : t.lexeme ≠ .mark ')' := fun he => hnot t.start (by rw [← he])
    rw [ih, List.findIdx?_cons, if_neg (by simpa using hcloser)]
    cases rest.findIdx? (·.lexeme = .mark ')') with
    | none => rfl
    | some i =>
      simp only [Option.bind_some, Option.map_some, List.getElem?_cons_succ]
      by_cases hbrace : (rest[i + 1]?).map Token.lexeme = some (.mark '{')
      · simp only [if_pos hbrace, Option.map_map]
        rfl
      · simp only [if_neg hbrace, Option.map_none]

end Method

/-- A sweep may turn its matches into something else as it finds them. -/
theorem sweepFrom_map {α β γ : Type} (f : β → γ) (pattern : List α → Option (β × Nat)) (skip : Nat)
    (xs : List α) :
    sweepFrom (fun ys => (pattern ys).map fun (b, n) => (f b, n)) skip xs =
      (sweepFrom pattern skip xs).map f := by
  fun_induction sweepFrom pattern skip xs with
  | case1 => simp [sweepFrom]
  | case2 skip x xs ih => rw [sweepFrom, ih]
  | case3 x xs b n hm ih =>
    rw [sweepFrom, hm, Option.map_some, List.map_cons, ← ih]
  | case4 x xs hm ih =>
    rw [sweepFrom, hm, Option.map_none, ih]

namespace Checked
variable {body : List Char} {ts : List Token}

/-- The list of parameters lies between two tokens of the body. -/
theorem slice_between {paren : Nat} {rest : List Token} {closer : Token}
    (hts : ⟨.mark '(', paren⟩ :: rest <:+ Token.scan body) (hcloser : closer ∈ rest) :
    slice (Token.stop ⟨.mark '(', paren⟩) closer.start body =
      .ok (Text.slice (paren + 1) closer.start body) := by
  have hopen : ⟨.mark '(', paren⟩ ∈ Token.scan body := hts.subset (by simp)
  have hclose : closer ∈ Token.scan body := hts.subset (List.mem_cons_of_mem _ hcloser)
  have hpairs := (Token.pairwise_scanFrom 0 body).sublist hts.sublist
  have hstop : Token.stop ⟨.mark '(', paren⟩ = paren + 1 := by
    simp [Token.stop, Token.text, Lexeme.text, show '('.utf8Size = 1 by decide]
  have hle := List.rel_of_pairwise_cons hpairs hcloser
  rw [hstop] at hle ⊢
  exact slice_eq hle (Token.mark_standsAt hopen).isBoundary_end (Token.standsAt hclose).isBoundary

theorem unmodified?_eq (hfits : Fits body) (hts : ts <:+ Token.scan body) (m : Modifier)
    (skipped : Nat) :
    unmodified? body m skipped ts =
      .ok ((Method.unmodified? body m ts).map fun (o, n) => (o.method, skipped + n)) := by
  unfold unmodified?
  split
  · rename_i type i name j paren rest
    have hrest : ⟨.mark '(', paren⟩ :: rest <:+ Token.scan body :=
      ((List.suffix_cons _ _).trans (List.suffix_cons _ _)).trans hts
    rw [Method.unmodified?]
    by_cases hmember : (isMemberType type && isIdentifier name) = true
    · rw [if_pos hmember, if_pos hmember, Method.closer?_eq]
      cases hi : rest.findIdx? (·.lexeme = .mark ')') with
      | none => rfl
      | some k =>
        obtain ⟨hk, _⟩ := List.findIdx?_eq_some_iff_getElem.1 hi
        simp only [List.getElem?_cons_succ, Option.bind_some]
        by_cases hbrace : (rest[k + 1]?).map Token.lexeme = some (.mark '{')
        · have hget : get (k + 3)
              (⟨.word type, i⟩ :: ⟨.word name, j⟩ :: ⟨.mark '(', paren⟩ :: rest) = .ok rest[k] := by
            simp [get, hk]
          have hlist := hfits.of_sublist (Text.slice_sublist (paren + 1) rest[k].start body)
          simp only [if_pos hbrace, hget, ok_bind, slice_between hrest (List.getElem_mem hk),
            parameterList_eq hlist, List.getElem?_eq_getElem hk, Option.map_some]
          rfl
        · simp only [if_neg hbrace, Option.map_none]
    · rw [if_neg hmember, if_neg hmember]
      rfl
  · rename_i hnot
    rw [Method.unmodified?.eq_2 _ _ _ hnot]
    rfl

theorem method?_eq (hfits : Fits body) (hts : ts <:+ Token.scan body) :
    method? body ts = .ok ((Method.match? body ts).map fun (o, n) => (o.method, n)) := by
  cases ts with
  | nil => rfl
  | cons first others =>
    rw [method?, Method.match?]
    cases first.lexeme.modifier? with
    | none => simp only [unmodified?_eq hfits hts, Nat.zero_add]
    | some m =>
      have hothers : others <:+ Token.scan body := (List.suffix_cons first others).trans hts
      have hskip : dropTo 1 (first :: others) = .ok others := dropTo_of_le (by simp)
      simp only [hskip, ok_bind, unmodified?_eq hfits hothers, Option.map_map]
      congr 2
      funext r
      simp only [Function.comp_apply, Nat.add_comm]

theorem methods_eq {body : String} (hfits : Fits body.toList) :
    methods body = .ok (ClassShape.methods body) := by
  have hsweep : sweepFrom (method? body.toList) (Token.scan body.toList) 0 =
      .ok (ClassShape.sweepFrom (fun ts => (Method.match? body.toList ts).map
        fun (o, n) => (o.method, n)) 0 (Token.scan body.toList)) := by
    refine sweepFrom_eq (fun i => method?_eq hfits (List.drop_suffix i _)) ?_ 0
    intro ts m n hm
    obtain ⟨r, hr, he⟩ := Option.map_eq_some_iff.1 hm
    cases he
    exact Method.match?_pos hr
  rw [methods, tokenize_eq, ok_bind, ClassShape.tokenize, hsweep, sweepFrom_map]
  rfl

end Checked
end ClassShape
