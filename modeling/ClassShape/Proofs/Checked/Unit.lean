import ClassShape.Proofs.Checked.Comments
import ClassShape.Proofs.Checked.Members
import ClassShape.Proofs.Checked.Tables
import ClassShape.Proofs.LineNumbers

/-! Source units read by positions. The place of each class is kept beside the classes and stays in
step with them, so no access of the whole reading is out of place, and the guard around it is never
needed. -/
namespace ClassShape

namespace Checked

structure Reading where
  table : Table
  advisories : List Advisory

def Reading.outcome (u : Reading) : Outcome := ⟨u.table.records, u.advisories⟩

def Reading.add (u : Reading) : Declaration → Checked Reading
  | .unclosed name => .ok ⟨u.table, u.advisories ++ [.unbalanced name]⟩
  | .complete body => do
    let attributes ← Checked.attributes body.text
    let methods ← Checked.methods body.text
    let found := u.table.positions.lookup body.name
    let table ← u.table.put ⟨body.name, body.parent, attributes, methods⟩
    .ok ⟨table, u.advisories ++ if found.isSome then [.duplicate body.name] else []⟩

def ofDeclarations : List Declaration → Checked Outcome
  | [] => .ok ⟨[], [.noClasses]⟩
  | d :: ds => do
    let unit ← (d :: ds).foldlM Reading.add ⟨.empty, []⟩
    .ok unit.outcome

def parse (source : String) : Checked Outcome := do
  let text ← strip source
  let found ← declarations text
  ofDeclarations found

/-- A fault is reported as the one advisory of a unit without classes. -/
def guarded (describe : Fault → String) : Checked Outcome → Outcome
  | .ok outcome => outcome
  | .error fault => ⟨[], [.unexpected (describe fault)]⟩

end Checked

theorem Text.trim_sublist (cs : List Char) : (trim cs).Sublist cs := by
  have hend : (trimEnd (cs.dropWhile isBlank)).Sublist (cs.dropWhile isBlank) := by
    rw [trimEnd, List.reverse_sublist.symm, List.reverse_reverse]
    exact List.dropWhile_sublist isBlank
  exact hend.trans (List.dropWhile_sublist isBlank)

theorem ClassBody.text_sublist {source : String} {body : ClassBody}
    (h : .complete body ∈ declarations source) : body.text.toList.Sublist source.toList := by
  obtain ⟨header, _, hbody⟩ := List.mem_map.1 h
  rw [Header.declaration] at hbody
  split at hbody
  · cases hbody
    rw [String.toList_ofList]
    exact (Text.trim_sublist _).trans (Text.slice_sublist _ _ _)
  · simp at hbody

namespace Checked

theorem Reading.add_eq {u : Reading} (hu : u.table.InStep) {d : Declaration}
    (hd : ∀ body, d = .complete body → Fits body.text.toList) :
    ∃ v, u.add d = .ok v ∧ v.outcome = u.outcome.add d ∧ v.table.InStep := by
  cases d with
  | unclosed name => exact ⟨_, rfl, rfl, hu⟩
  | complete body =>
    obtain ⟨positions, hput, hstep⟩ := Table.put_eq hu body.classRecord
    have hfound : (u.table.positions.lookup body.name).isSome =
        Pool.contains u.table.records body.name := by
      rw [Bool.eq_iff_iff, hu.isSome_iff, Pool.contains_iff]
    refine ⟨⟨⟨_, positions⟩, (u.outcome.add (.complete body)).advisories⟩, ?_, rfl, hstep⟩
    rw [ClassBody.classRecord] at hput
    simp only [add, attributes_eq, methods_eq (hd body rfl), ok_bind, hput, hfound]
    rfl

/-- Reading declaration after declaration keeps the positions in step. -/
theorem Reading.foldlM_add {ds : List Declaration} {u : Reading} (hu : u.table.InStep)
    (hds : ∀ body, .complete body ∈ ds → Fits body.text.toList) :
    ∃ v, ds.foldlM add u = .ok v ∧ v.outcome = ds.foldl Outcome.add u.outcome := by
  induction ds generalizing u with
  | nil => exact ⟨u, rfl, rfl⟩
  | cons d ds ih =>
    obtain ⟨v, hadd, hv, hstep⟩ := add_eq hu fun body hbody =>
      hds body (hbody ▸ List.mem_cons_self)
    obtain ⟨w, hfold, hw⟩ := ih hstep fun body hbody => hds body (List.mem_cons_of_mem d hbody)
    exact ⟨w, by rw [List.foldlM_cons, hadd, ok_bind, hfold], by rw [hw, hv, List.foldl_cons]⟩

theorem ofDeclarations_eq {ds : List Declaration}
    (hds : ∀ body, .complete body ∈ ds → Fits body.text.toList) :
    ofDeclarations ds = .ok (Outcome.ofDeclarations ds) := by
  cases ds with
  | nil => rfl
  | cons d ds =>
    obtain ⟨v, hfold, hv⟩ := Reading.foldlM_add (u := ⟨.empty, []⟩) Table.inStep_empty hds
    rw [ofDeclarations, hfold, ok_bind, hv]
    rfl

theorem parse_eq {source : String} (h : Fits source.toList) :
    parse source = .ok (ClassShape.parse source) := by
  have hbodies : ∀ body, .complete body ∈ ClassShape.declarations (Comment.strip source) →
      Fits body.text.toList := fun body hbody =>
    h.of_sublist ((ClassBody.text_sublist hbody).trans (Comment.strip_thinned source).sublist)
  rw [parse, strip_eq, ok_bind, declarations_eq, ok_bind, ofDeclarations_eq hbodies,
    ClassShape.parse]

end Checked

theorem Outcome.unexpected_notMem (ds : List Declaration) (reason : String) :
    .unexpected reason ∉ (ofDeclarations ds).advisories := by
  by_cases hds : ds = []
  · simp [hds, ofDeclarations]
  · rw [ofDeclarations_of_ne_nil hds, advisories_foldl_add, List.mem_filterMap]
    intro hfound
    obtain ⟨⟨d, i⟩, _, hd⟩ := hfound
    cases d with
    | unclosed name => simp [Declaration.advisory?] at hd
    | complete body =>
      simp only [Declaration.advisory?] at hd
      split at hd <;> simp at hd

/-- No text makes the reading fail: with every access checked, each stage gives what it gives
without, the guard passes the outcome on, and no outcome reports an unexpected failure. -/
theorem parse_faultless {source : String} (h : Fits source.toList) :
    Checked.strip source = .ok (Comment.strip source) ∧
    Checked.tokenize source = .ok (tokenize source) ∧
    Checked.declarations source = .ok (declarations source) ∧
    Checked.attributes source = .ok (attributes source) ∧
    Checked.methods source = .ok (methods source) ∧
    Checked.parameters source = .ok (parameters source) ∧
    Checked.parse source = .ok (parse source) ∧
    (∀ describe, Checked.guarded describe (Checked.parse source) = parse source) ∧
    ∀ reason, .unexpected reason ∉ (parse source).advisories := by
  refine ⟨Checked.strip_eq source, Checked.tokenize_eq source, Checked.declarations_eq source,
    Checked.attributes_eq source, Checked.methods_eq h, Checked.parameterList_eq h,
    Checked.parse_eq h, ?_, ?_⟩
  · intro describe
    rw [Checked.parse_eq h, Checked.guarded]
  · exact Outcome.unexpected_notMem _

/-- Letters of two bytes beside every delimiter, a parameter without a type, and two bodies that
never close. -/
def oddUnit : String :=
  "/*é*/class Été extends Ω\x7bint ü;void m(Map<é,ü> x,é)\x7b\x7d\x7dclass B\x7bß(class é\x7b"

theorem parse_oddUnit :
    Fits oddUnit.toList ∧
    Checked.parse oddUnit = .ok
      ⟨[⟨"Été", some "Ω", [⟨.default, "int", "ü"⟩],
          [⟨.default, "void", "m", [⟨"Map<é,ü>", "x"⟩]⟩]⟩],
        [.unbalanced "B", .unbalanced "é"]⟩ := by
  have hfits : Fits oddUnit.toList := by decide
  obtain ⟨_, _, _, _, _, _, hparse, _⟩ := parse_faultless hfits
  exact ⟨hfits, hparse.trans (congrArg Except.ok (by decide +kernel))⟩

end ClassShape
