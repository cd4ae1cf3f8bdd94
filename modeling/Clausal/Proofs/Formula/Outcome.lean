import Clausal.Proofs.Formula.Truth
import Clausal.Proofs.Formula.Walk
import Mathlib.Data.List.Find

namespace Clausal

namespace Model

def lacks (model : Model) (name : String) : Bool :=
  (model.get? name).isNone

/-- The outcome of work that needs a value for each of some names: the first that has none is the
fault. -/
def answer {α : Type} (model : Model) (names : List String) (a : α) : Except Fault α :=
  match names.find? model.lacks with
  | some name => .error (.unassigned name)
  | none => .ok a

theorem lacks_eq_true_iff (model : Model) (name : String) :
    model.lacks name = true ↔ name ∉ model.keys := by
  rw [lacks, Option.isNone_iff_eq_none, Table.mem_keys_iff, not_exists,
    Option.eq_none_iff_forall_ne_some]

variable {α β : Type} {model : Model}

theorem value_eq_answer (model : Model) (name : String) :
    model.value name = model.answer [name] (model.total name) := by
  cases found : model.get? name <;> simp [value, answer, lacks, total, found]

/-- Work on some names and then on others needs a value for each of them all, in this order. -/
theorem answer_bind (names others : List String) (a : α) (b : α → β) :
    (model.answer names a >>= fun a => model.answer others (b a)) =
      model.answer (names ++ others) (b a) := by
  simp only [answer, List.find?_append]
  cases names.find? model.lacks <;> rfl

theorem answer_map (names : List String) (a : α) (b : α → β) :
    (model.answer names a >>= fun a => pure (b a)) = model.answer names (b a) := by
  rw [answer, answer]
  cases names.find? model.lacks <;> rfl

theorem answer_eq_ok_iff (names : List String) (a b : α) :
    model.answer names a = .ok b ↔ (∀ name ∈ names, name ∈ model.keys) ∧ b = a := by
  have covered : names.find? model.lacks = none ↔ ∀ name ∈ names, name ∈ model.keys := by
    simp only [List.find?_eq_none, lacks_eq_true_iff, Decidable.not_not]
  rw [answer, ← covered]
  cases names.find? model.lacks <;> simp [eq_comm]

theorem answer_eq_error_iff (names : List String) (a : α) (fault : Fault) :
    model.answer names a = .error fault ↔ ∃ before name after, names = before ++ name :: after ∧
      (∀ other ∈ before, other ∈ model.keys) ∧ name ∉ model.keys ∧ fault = .unassigned name := by
  have first (name : String) : names.find? model.lacks = some name ↔ name ∉ model.keys ∧
      ∃ before after, names = before ++ name :: after ∧ ∀ other ∈ before, other ∈ model.keys := by
    rw [List.find?_eq_some_iff_append, lacks_eq_true_iff]
    simp only [Bool.not_eq_true', ← Bool.not_eq_true, lacks_eq_true_iff, Decidable.not_not]
  rw [answer]
  constructor
  · intro failed
    split at failed
    · rename_i name found
      obtain ⟨missing, before, after, parts, covered⟩ := (first name).mp found
      cases failed
      exact ⟨before, name, after, parts, covered, missing, rfl⟩
    · cases failed
  · rintro ⟨before, name, after, parts, covered, missing, rfl⟩
    rw [(first name).mpr ⟨missing, before, after, parts, covered⟩]

end Model

namespace Formula

/-- The plain recursion looks at all leaves from left to right. -/
theorem evaluate_eq_answer (f : Formula) (model : Model) :
    f.evaluate model = model.answer f.leaves (f.truth model.total) := by
  have both : (∀ f : Formula,
        f.fold model.value Connective.apply = model.answer f.leaves (f.truth model.total)) ∧
      ∀ fs : List Formula, foldAll model.value Connective.apply fs =
        model.answer (fs.flatMap leaves) (fs.map (truth model.total)) := by
    refine forest_induction ?var ?node ?nil ?cons
    case var =>
      intro name
      rw [fold, truth_var, leaves_var, Model.value_eq_answer]
    case node =>
      intro c f root ih
      rw [fold_node _ _ root, ih, leaves_node root, truth_node root, Model.answer_map]
    case nil => rfl
    case cons =>
      intro f fs ihf ihs
      rw [foldAll, ihf, ihs, List.flatMap_cons, List.map_cons]
      simp only [Model.answer_map]
      exact Model.answer_bind f.leaves (fs.flatMap leaves) (f.truth model.total)
        (· :: fs.map (truth model.total))
  exact both.1 f

/-- The evaluation that stores values finds the same value as plain recursion, or the same fault. It
finds a value exactly if every name has one. Otherwise there is a fault of value, which names the leftmost
leaf without one, also where other subformulas settle the outcome. Nothing but the values of its names
counts. -/
theorem evaluateShared_outcome (f : Formula) (model : Model) :
    f.evaluateShared model = f.evaluate model ∧
    (∀ b, f.evaluateShared model = .ok b ↔
      (∀ name ∈ f.names, name ∈ model.keys) ∧ b = f.truth model.total) ∧
    (∀ fault, f.evaluateShared model = .error fault ↔
      ∃ before name after, f.leaves = before ++ name :: after ∧
        (∀ other ∈ before, other ∈ model.keys) ∧ name ∉ model.keys ∧ fault = .unassigned name) ∧
    (∀ fault, f.evaluateShared model = .error fault → fault.kind = .value) ∧
    ∀ other : Model, (∀ name ∈ f.names, other.get? name = model.get? name) →
      f.evaluateShared other = f.evaluateShared model := by
  have shared := f.evaluateShared_eq_evaluate model
  have outcome := shared.trans (f.evaluate_eq_answer model)
  refine ⟨shared, fun b => ?_, fun fault => ?_, fun fault failed => ?_, fun other same => ?_⟩
  · rw [outcome, Model.answer_eq_ok_iff]
    simp only [mem_names_iff]
  · rw [outcome, Model.answer_eq_error_iff]
  · rw [outcome, Model.answer_eq_error_iff] at failed
    obtain ⟨before, name, after, parts, covered, missing, rfl⟩ := failed
    rfl
  · simp only [mem_names_iff] at same
    have total : f.truth other.total = f.truth model.total :=
      truth_congr fun name leaf => by rw [Model.total, Model.total, same name leaf]
    have lacks : f.leaves.find? other.lacks = f.leaves.find? model.lacks :=
      List.find?_congr fun name leaf => by rw [Model.lacks, Model.lacks, same name leaf]
    rw [outcome, evaluateShared_eq_evaluate, evaluate_eq_answer, total, Model.answer, Model.answer, lacks]

end Formula

end Clausal
