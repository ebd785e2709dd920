import ClassShape.Json.Reader
import ClassShape.Proofs.Json.Symbols

/-! Reading back what was written. The machine takes the symbols of a value and hands the value to
the container around it; at the end nothing is around it, and the value is the result. -/
namespace ClassShape.Json

/-- Induction over a value through the containers in it. -/
@[elab_as_elim]
theorem nested_induction {motive : Json → Prop} (atom : ∀ j, spell j = [.atom j] → motive j)
    (array : ∀ items, (∀ j ∈ items, motive j) → motive (array items))
    (object : ∀ fields, (∀ f ∈ fields, motive f.2) → motive (object fields)) :
    ∀ j, motive j
  | .null => atom _ (by rw [spell])
  | .bool b => atom _ (by rw [spell])
  | .count n => atom _ (by rw [spell])
  | .number spelling => atom _ (by rw [spell])
  | .string s => atom _ (by rw [spell])
  | .array items => array items fun j _ => nested_induction atom array object j
  | .object fields => object fields fun f _ => nested_induction atom array object f.2
termination_by j => sizeOf j
decreasing_by
  · have := List.sizeOf_lt_of_mem ‹j ∈ items›
    simp only [Json.array.sizeOf_spec]
    omega
  · have := List.sizeOf_lt_of_mem ‹f ∈ fields›
    obtain ⟨k, v⟩ := f
    simp only [Json.object.sizeOf_spec, Prod.mk.sizeOf_spec] at this ⊢
    omega

def resume (ss : List Symbol) : Option (Stage × List Frame) → Option Json
  | some (stage, stack) => run stage stack ss
  | none => none

theorem run_cons (stage : Stage) (stack : List Frame) (s : Symbol) (ss : List Symbol) :
    run stage stack (s :: ss) = resume ss (step stage stack s) := by
  rw [run]
  cases step stage stack s with
  | none => rfl
  | some r => rfl

inductive Stage.Open : Stage → Prop where
  | value : Open .value
  | firstItem : Open .firstItem

/-- The symbols of the value are taken as one value. -/
def Taken (j : Json) : Prop :=
  ∀ stage stack ss, Stage.Open stage →
    run stage stack (spell j ++ ss) = resume ss (deliver j stack)

theorem step_begin {stage : Stage} (h : stage.Open) {s : Symbol} (hs : s ≠ .rightBracket)
    (stack : List Frame) : step stage stack s = begin stack s := by
  cases h with
  | value => rfl
  | firstItem =>
    cases s with
    | rightBracket => exact absurd rfl hs
    | _ => rfl

theorem run_items {js : List Json} (hjs : ∀ j ∈ js, Taken j) (done : List Json)
    (stack : List Frame) (ss : List Symbol) :
    run .next (.items done :: stack) (spellItems js ++ .rightBracket :: ss) =
      resume ss (deliver (array (done.reverse ++ js)) stack) := by
  induction js generalizing done with
  | nil =>
    rw [List.append_nil]
    exact run_cons _ _ _ _
  | cons j js ih =>
    have hrest := ih (fun i hi => hjs i (List.mem_cons_of_mem j hi)) (j :: done)
    rw [List.reverse_cons, List.append_assoc, List.singleton_append] at hrest
    rw [spellItems, List.cons_append, List.append_assoc, run_cons]
    exact (hjs j (by simp) .value (.items done :: stack) _ .value).trans hrest

theorem run_fields {fs : List (String × Json)} (hfs : ∀ f ∈ fs, Taken f.2)
    (done : List (String × Json)) (stack : List Frame) (ss : List Symbol) :
    run .next (.fields done :: stack) (spellFields fs ++ .rightBrace :: ss) =
      resume ss (deliver (object (done.reverse ++ fs)) stack) := by
  induction fs generalizing done with
  | nil =>
    rw [List.append_nil]
    exact run_cons _ _ _ _
  | cons f fs ih =>
    obtain ⟨k, v⟩ := f
    have hrest := ih (fun g hg => hfs g (List.mem_cons_of_mem _ hg)) ((k, v) :: done)
    rw [List.reverse_cons, List.append_assoc, List.singleton_append] at hrest
    rw [spellFields, List.cons_append, List.cons_append, List.cons_append, List.append_assoc,
      run_cons]
    exact (hfs (k, v) (by simp) .value (.field done k :: stack) _ .value).trans hrest

theorem taken (j : Json) : Taken j := by
  induction j using nested_induction with
  | atom j hj =>
    intro stage stack ss hopen
    rw [hj, List.singleton_append, run_cons, step_begin hopen (by simp)]
    rfl
  | array items ih =>
    intro stage stack ss hopen
    cases items with
    | nil =>
      rw [spell, List.cons_append, run_cons, step_begin hopen (by simp)]
      exact run_cons _ _ _ _
    | cons j js =>
      have hitems := run_items (fun i hi => ih i (List.mem_cons_of_mem j hi)) [j] stack ss
      rw [spell, List.cons_append, List.append_assoc, List.append_assoc, List.singleton_append,
        run_cons, step_begin hopen (by simp)]
      exact (ih j (by simp) .firstItem (.items [] :: stack) _ .firstItem).trans hitems
  | object fields ih =>
    intro stage stack ss hopen
    cases fields with
    | nil =>
      rw [spell, List.cons_append, run_cons, step_begin hopen (by simp)]
      exact run_cons _ _ _ _
    | cons f fs =>
      obtain ⟨k, v⟩ := f
      have hfields := run_fields (fun g hg => ih g (List.mem_cons_of_mem _ hg)) [(k, v)] stack ss
      rw [spell, List.cons_append, List.cons_append, List.cons_append, List.append_assoc,
        List.append_assoc, List.singleton_append, run_cons, step_begin hopen (by simp)]
      exact (ih (k, v) (by simp) .value (.field [] k :: stack) _ .value).trans hfields

/-- What is written is read back. -/
theorem Legible.parse?_pretty {j : Json} (hj : Legible j) : parse? j.pretty = some j := by
  have hrun := taken j .value [] [] .value
  rw [List.append_nil] at hrun
  rw [parse?, hj.symbols?_pretty, Option.bind_some, hrun]
  rfl

end ClassShape.Json
