import Clausal.Formula.Evaluate
import Clausal.Formula.Sharing
import Clausal.Proofs.Formula.Preorder
import Clausal.Proofs.Model

namespace Clausal.Formula

mutual

/-- The truth value of a formula where every name has a value. -/
def truth (v : String → Bool) : Formula → Bool
  | var name => v name
  | neg sub => Connective.neg.apply [sub.truth v]
  | conj subs => Connective.conj.apply (truthAll v subs)
  | disj subs => Connective.disj.apply (truthAll v subs)
  | imp left right => Connective.imp.apply [left.truth v, right.truth v]
  | iff left right => Connective.iff.apply [left.truth v, right.truth v]

def truthAll (v : String → Bool) : List Formula → List Bool
  | [] => []
  | f :: fs => f.truth v :: truthAll v fs

end

theorem truthAll_eq_map (v : String → Bool) (fs : List Formula) :
    truthAll v fs = fs.map (truth v) := by
  induction fs with
  | nil => rfl
  | cons f fs ih => rw [truthAll, ih, List.map_cons]

@[simp]
theorem truth_var (v : String → Bool) (name : String) : (var name).truth v = v name := by
  rw [truth]

theorem truth_node {c : Connective} {f : Formula} (root : f.connective? = some c)
    (v : String → Bool) : f.truth v = c.apply (f.subs.map (truth v)) := by
  cases f <;> cases root <;> simp [truth, truthAll_eq_map, subs]

theorem fold_node {ε α : Type} (leaf : String → Except ε α) (join : Connective → List α → α)
    {c : Connective} {f : Formula} (root : f.connective? = some c) :
    f.fold leaf join = do
      let as ← foldAll leaf join f.subs
      return join c as := by
  cases f <;> cases root <;> simp [fold, foldAll, subs]

/-- Where every fold gives a value of the formula, that of a node is joined from those of its
subformulas. -/
theorem eq_join_of_fold {ε α : Type} {leaf : String → Except ε α} {join : Connective → List α → α}
    {value : Formula → α} (each : ∀ f : Formula, f.fold leaf join = .ok (value f)) {c : Connective}
    {f : Formula} (root : f.connective? = some c) : value f = join c (f.subs.map value) := by
  have all : ∀ fs : List Formula, foldAll leaf join fs = .ok (fs.map value) := by
    intro fs
    induction fs with
    | nil => rfl
    | cons g gs ih =>
      rw [foldAll, each g, ih]
      rfl
  have whole := each f
  rw [fold_node leaf join root, all] at whole
  exact (Except.ok.inj whole).symm

theorem truth_congr {f : Formula} {u v : String → Bool} (same : ∀ name ∈ f.leaves, u name = v name) :
    f.truth u = f.truth v := by
  induction f using node_induction with
  | var name => simpa using same
  | node c f root ih =>
    rw [truth_node root, truth_node root]
    congr 1
    refine List.map_congr_left fun g child => ih g child fun name leaf => same name ?_
    rw [leaves_node root]
    exact List.mem_flatMap.mpr ⟨g, child, leaf⟩

/-- In a model of all its names a formula has a truth value, and evaluation finds it. -/
theorem evaluate_eq_ok {model : Model} {f : Formula} (covered : ∀ name ∈ f.leaves, name ∈ model.keys) :
    f.evaluate model = .ok (f.truth model.total) := by
  have both : (∀ f : Formula, (∀ name ∈ f.leaves, name ∈ model.keys) →
        f.fold model.value Connective.apply = .ok (f.truth model.total)) ∧
      ∀ fs : List Formula, (∀ name ∈ fs.flatMap leaves, name ∈ model.keys) →
        foldAll model.value Connective.apply fs = .ok (fs.map (truth model.total)) := by
    refine forest_induction ?var ?node ?nil ?cons
    case var =>
      intro name covered
      rw [fold, truth_var]
      exact Model.value_of_mem (covered name List.mem_cons_self)
    case node =>
      intro c f root ih covered
      rw [leaves_node root] at covered
      rw [fold_node _ _ root, ih covered, truth_node root]
      rfl
    case nil => exact fun _ => rfl
    case cons =>
      intro f fs ihf ihs covered
      rw [List.flatMap_cons] at covered
      rw [foldAll, ihf fun name leaf => covered name (List.mem_append_left _ leaf),
        ihs fun name leaf => covered name (List.mem_append_right _ leaf)]
      rfl
  exact both.1 f covered

theorem evaluateShared_eq_evaluate (f : Formula) (model : Model) :
    f.evaluateShared model = f.evaluate model :=
  foldShared_eq_fold model.value Connective.apply f

theorem evaluateShared_eq_ok {model : Model} {f : Formula}
    (covered : ∀ name ∈ f.leaves, name ∈ model.keys) :
    f.evaluateShared model = .ok (f.truth model.total) :=
  (f.evaluateShared_eq_evaluate model).trans (evaluate_eq_ok covered)

end Clausal.Formula
