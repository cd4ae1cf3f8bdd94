import Clausal.Formula.Measure
import Clausal.Formula.Subformulas

namespace Clausal.Formula

mutual

/-- All occurrences of subformulas, parents before their children and children from left to right. -/
def preorder : Formula → List Formula
  | var name => [var name]
  | neg sub => neg sub :: sub.preorder
  | conj subs => conj subs :: preorderAll subs
  | disj subs => disj subs :: preorderAll subs
  | imp left right => imp left right :: (left.preorder ++ right.preorder)
  | iff left right => iff left right :: (left.preorder ++ right.preorder)

def preorderAll : List Formula → List Formula
  | [] => []
  | f :: fs => f.preorder ++ preorderAll fs

end

def leaves (f : Formula) : List String :=
  f.preorder.filterMap name?

def composites (f : Formula) : List Formula :=
  f.preorder.filter fun g => g.connective?.isSome

theorem preorderAll_eq (fs : List Formula) : preorderAll fs = fs.flatMap preorder := by
  induction fs with
  | nil => rfl
  | cons f fs ih => rw [preorderAll, ih, List.flatMap_cons]

theorem preorder_eq (f : Formula) : f.preorder = f :: f.subs.flatMap preorder := by
  cases f <;> simp [preorder, preorderAll_eq, subs]

theorem connective?_eq_none_iff (f : Formula) : f.connective? = none ↔ ∃ name, f = var name := by
  cases f <;> simp [connective?]

theorem name?_eq_some_iff (f : Formula) (name : String) : f.name? = some name ↔ f = var name := by
  cases f <;> simp [name?]

theorem name?_of_connective {c : Connective} {f : Formula} (root : f.connective? = some c) :
    f.name? = none := by
  cases f <;> simp_all [connective?, name?]

@[simp]
theorem leaves_var (name : String) : (var name).leaves = [name] := rfl

@[simp]
theorem composites_var (name : String) : (var name).composites = [] := rfl

theorem leaves_node {c : Connective} {f : Formula} (root : f.connective? = some c) :
    f.leaves = f.subs.flatMap leaves := by
  rw [leaves, preorder_eq, List.filterMap_cons_none (name?_of_connective root),
    List.filterMap_flatMap]
  rfl

theorem composites_node {c : Connective} {f : Formula} (root : f.connective? = some c) :
    f.composites = f :: f.subs.flatMap composites := by
  rw [composites, preorder_eq, List.filter_cons_of_pos (by rw [root]; rfl), List.filter_flatMap]
  rfl

theorem occurrences_lt_of_mem_subs {f g : Formula} (child : g ∈ f.subs) :
    g.occurrences < f.occurrences := by
  have bound : ∀ fs : List Formula, g ∈ fs → g.occurrences ≤ occurrencesAll fs := by
    intro fs member
    induction fs with
    | nil => simp at member
    | cons h fs ih =>
      rw [occurrencesAll]
      rcases List.mem_cons.mp member with rfl | member
      · omega
      · have rest := ih member
        omega
  have atSubs := bound f.subs child
  rw [occurrences_eq f]
  omega

/-- Induction where all composite formulas are one case: a variable, and a formula with a
connective whose subformulas have the property. -/
theorem node_induction {motive : Formula → Prop} (var : ∀ name, motive (var name))
    (node : ∀ (c : Connective) (f : Formula), f.connective? = some c →
      (∀ g ∈ f.subs, motive g) → motive f) (f : Formula) : motive f := by
  induction size : f.occurrences using Nat.strongRecOn generalizing f with
  | ind n ih =>
    cases root : f.connective? with
    | none =>
      obtain ⟨name, rfl⟩ := (connective?_eq_none_iff f).mp root
      exact var name
    | some c =>
      refine node c f root fun g child => ?_
      have smaller := occurrences_lt_of_mem_subs child
      exact ih g.occurrences (by omega) g rfl

/-- Induction for formulas and for lists of formulas at once. -/
theorem forest_induction {motive : Formula → Prop} {motiveAll : List Formula → Prop}
    (var : ∀ name, motive (var name))
    (node : ∀ (c : Connective) (f : Formula), f.connective? = some c → motiveAll f.subs → motive f)
    (nil : motiveAll []) (cons : ∀ f fs, motive f → motiveAll fs → motiveAll (f :: fs)) :
    (∀ f, motive f) ∧ ∀ fs, motiveAll fs := by
  have all : ∀ fs : List Formula, (∀ f ∈ fs, motive f) → motiveAll fs := by
    intro fs each
    induction fs with
    | nil => exact nil
    | cons f fs ih =>
      exact cons f fs (each f List.mem_cons_self) (ih fun g member => each g (.tail _ member))
  have single : ∀ f, motive f := by
    intro f
    induction f using node_induction with
    | var name => exact var name
    | node c f root ih => exact node c f root (all f.subs ih)
  exact ⟨single, fun fs => all fs fun f _ => single f⟩

theorem self_mem_preorder (f : Formula) : f ∈ f.preorder := by
  rw [preorder_eq]
  exact List.mem_cons_self

theorem preorder_trans {f g h : Formula} (inner : h ∈ g.preorder) (outer : g ∈ f.preorder) :
    h ∈ f.preorder := by
  induction f using node_induction with
  | var name =>
    have same : g = .var name := by simpa [preorder] using outer
    rwa [same] at inner
  | node c f root ih =>
    rw [preorder_eq, List.mem_cons, List.mem_flatMap] at outer
    rcases outer with rfl | ⟨child, member, outer⟩
    · exact inner
    · rw [preorder_eq, List.mem_cons, List.mem_flatMap]
      exact Or.inr ⟨child, member, ih child member outer⟩

theorem mem_preorder_of_mem_subs {f g : Formula} (child : g ∈ f.subs) : g ∈ f.preorder := by
  rw [preorder_eq, List.mem_cons, List.mem_flatMap]
  exact Or.inr ⟨g, child, g.self_mem_preorder⟩

theorem mem_leaves_iff (f : Formula) (name : String) :
    name ∈ f.leaves ↔ var name ∈ f.preorder := by
  simp only [leaves, List.mem_filterMap, name?_eq_some_iff, exists_eq_right]

theorem leaves_subset_of_mem_composites {f g : Formula} (member : g ∈ f.composites) {name : String}
    (leaf : name ∈ g.leaves) : name ∈ f.leaves := by
  rw [mem_leaves_iff] at leaf ⊢
  exact preorder_trans leaf (List.mem_filter.mp member).1

end Clausal.Formula
