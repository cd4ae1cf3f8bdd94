import Clausal.Formula.Sharing
import Clausal.Proofs.Formula.Position
import Clausal.Proofs.Formula.Truth
import Clausal.Proofs.Formula.Visit
import Mathlib.Data.List.Induction
import Mathlib.Data.List.Nodup
import Mathlib.Data.List.Pairwise
import Mathlib.Order.Bounds.Defs

namespace Clausal.Formula

theorem heightAbove_spec {hs : List Nat} (nonempty : hs ≠ []) :
    ∃ m ∈ hs, heightAbove hs = m + 1 ∧ ∀ h ∈ hs, h ≤ m := by
  obtain ⟨h, rest, rfl⟩ := List.exists_cons_of_ne_nil nonempty
  have found : (h :: rest).max? = some (rest.foldl max h) := List.max?_cons'
  obtain ⟨member, greatest⟩ := List.max?_eq_some_iff.mp found
  exact ⟨rest.foldl max h, member, Nat.add_comm 1 _, greatest⟩

/-- Plain recursion finds the height. -/
theorem fold_height (f : Formula) :
    f.fold (ε := Empty) (fun _ => .ok 0) (fun _ => heightAbove) = .ok f.height := by
  have shared := f.foldShared_eq_fold (ε := Empty) (fun _ => .ok 0) (fun _ => heightAbove)
  rw [height, ← shared]
  cases f.foldShared (ε := Empty) (fun _ => .ok 0) (fun _ => heightAbove) with
  | ok h => rfl
  | error e => exact e.elim

theorem height_eq (f : Formula) : f.height = heightAbove (f.subs.map height) := by
  cases root : f.connective? with
  | none =>
    obtain ⟨name, rfl⟩ := (connective?_eq_none_iff f).mp root
    exact (Except.ok.inj (fold_height (var name))).symm
  | some c => exact eq_join_of_fold fold_height root

theorem height_lt_of_mem_subs {f g : Formula} (child : g ∈ f.subs) : g.height < f.height := by
  have member := List.mem_map_of_mem (f := height) child
  obtain ⟨m, _, above, greatest⟩ := heightAbove_spec (List.ne_nil_of_mem member)
  have below := greatest g.height member
  rw [height_eq f]
  omega

theorem height_eq_zero_iff (f : Formula) : f.height = 0 ↔ f.subs = [] := by
  constructor
  · intro zero
    refine List.eq_nil_iff_forall_not_mem.mpr fun g child => ?_
    have higher := height_lt_of_mem_subs child
    omega
  · intro none
    rw [height_eq, none]
    rfl

/-- A way down from a formula, one step to a child after the other, to a formula without children.
The list tells which formulas it comes through. -/
inductive Descent : Formula → List Formula → Prop
  | stop {f} : f.subs = [] → Descent f []
  | step {f g below} : g ∈ f.subs → Descent g below → Descent f (g :: below)

namespace Descent

variable {f : Formula} {below : List Formula}

theorem length_le (way : Descent f below) : below.length ≤ f.height := by
  induction way with
  | stop => exact Nat.zero_le _
  | step child _ ih =>
    have higher := height_lt_of_mem_subs child
    rw [List.length_cons]
    omega

theorem reaches (way : Descent f below) : ∀ g ∈ below, f.Reaches g := by
  induction way with
  | stop => exact fun g member => absurd member List.not_mem_nil
  | step child _ ih =>
    intro g member
    rcases List.mem_cons.mp member with rfl | later
    · exact .single child
    · exact .head child (ih g later)

/-- The trees get smaller on the way down, so that it comes to no formula twice. -/
theorem occurrences_lt (way : Descent f below) :
    below.Nodup ∧ ∀ g ∈ below, g.occurrences < f.occurrences := by
  induction way with
  | stop => exact ⟨List.nodup_nil, fun g member => absurd member List.not_mem_nil⟩
  | @step f child below atChild _ ih =>
    have first := occurrences_lt_of_mem_subs atChild
    refine ⟨List.nodup_cons.mpr ⟨fun again => ?_, ih.1⟩, fun g member => ?_⟩
    · exact Nat.lt_irrefl _ (ih.2 child again)
    · rcases List.mem_cons.mp member with rfl | later
      · exact first
      · exact Nat.lt_trans (ih.2 g later) first

theorem length_lt_walk (way : Descent f below) : below.length + 1 ≤ f.subformulas.length := by
  obtain ⟨distinct, smaller⟩ := way.occurrences_lt
  have whole : (f :: below).Nodup :=
    List.nodup_cons.mpr ⟨fun again => Nat.lt_irrefl _ (smaller f again), distinct⟩
  have walked : ∀ g ∈ f :: below, g ∈ f.subformulas := by
    intro g member
    rw [mem_subformulas_iff, mem_preorder_iff_reaches]
    rcases List.mem_cons.mp member with rfl | later
    · exact .refl
    · exact way.reaches g later
  exact (whole.subperm walked).length_le

end Descent

theorem exists_descent (f : Formula) : ∃ below, Descent f below ∧ below.length = f.height := by
  induction f using node_induction with
  | var name => exact ⟨[], .stop rfl, ((height_eq_zero_iff _).mpr rfl).symm⟩
  | node c f root ih =>
    by_cases none : f.subs = []
    · exact ⟨[], .stop none, ((height_eq_zero_iff f).mpr none).symm⟩
    · obtain ⟨m, member, above, _⟩ := heightAbove_spec (List.map_eq_nil_iff.not.mpr none)
      obtain ⟨g, child, rfl⟩ := List.mem_map.mp member
      obtain ⟨below, way, length⟩ := ih g child
      exact ⟨g :: below, .step child way, by rw [List.length_cons, length, height_eq f, above]⟩

theorem isGreatest_height (f : Formula) :
    IsGreatest {n | ∃ below, Descent f below ∧ below.length = n} f.height := by
  refine ⟨f.exists_descent, fun n reached => ?_⟩
  obtain ⟨below, way, rfl⟩ := reached
  exact way.length_le

/-- The lower ends of the edges that the size counts. -/
def ends (f : Formula) : List Formula :=
  f.subformulas.flatMap subs

theorem occurrences_le_of_reaches {f g : Formula} (reached : f.Reaches g) :
    g.occurrences ≤ f.occurrences := by
  induction reached with
  | refl => exact Nat.le_refl _
  | tail _ child ih => exact Nat.le_trans (Nat.le_of_lt (occurrences_lt_of_mem_subs child)) ih

/-- All that the walk yields is the lower end of an edge, except for the formula itself. -/
theorem mem_ends_iff (f g : Formula) : g ∈ f.ends ↔ g ≠ f ∧ g ∈ f.subformulas := by
  rw [ends, List.mem_flatMap]
  simp only [mem_subformulas_iff, mem_preorder_iff_reaches]
  constructor
  · intro edge
    obtain ⟨parent, reached, child⟩ := edge
    have smaller := occurrences_lt_of_mem_subs child
    have bound := occurrences_le_of_reaches reached
    refine ⟨?_, reached.tail child⟩
    rintro rfl
    omega
  · rintro ⟨other, reached⟩
    cases reached with
    | refl => exact absurd rfl other
    | tail above child => exact ⟨_, above, child⟩

theorem length_walk_edges (f : Formula) :
    f.subformulas.length ≤ f.size + 1 ∧ (f.subformulas.length = f.size + 1 ↔ f.ends.Nodup) := by
  have distinct := f.nodup_subformulas
  have atStart : f ∈ f.subformulas := (mem_subformulas_iff f f).mpr f.self_mem_preorder
  have others := length_le_of_nodup (distinct.erase f) fun g =>
    distinct.mem_erase_iff.trans (mem_ends_iff f g).symm
  have positive := List.length_pos_of_mem atStart
  have size : f.size = f.ends.length := rfl
  rw [List.length_erase_of_mem atStart] at others
  rw [size, ← others.2]
  omega

theorem mem_subformulas_iff_at? (f g : Formula) : g ∈ f.subformulas ↔ ∃ p, f.at? p = some g := by
  rw [mem_subformulas_iff, mem_preorder_iff_reaches]
  constructor
  · intro reached
    induction reached with
    | refl => exact ⟨[], rfl⟩
    | tail _ child ih =>
      obtain ⟨p, above⟩ := ih
      obtain ⟨i, atChild⟩ := List.getElem?_of_mem child
      exact ⟨p ++ [i], (at?_concat_iff f _ p i).mpr ⟨_, above, atChild⟩⟩
  · rintro ⟨p, found⟩
    induction p using List.reverseRecOn generalizing g with
    | nil =>
      obtain rfl := Option.some.inj found
      exact .refl
    | append_singleton p i ih =>
      obtain ⟨parent, above, child⟩ := (at?_concat_iff f g p i).mp found
      exact (ih parent above).tail (List.mem_of_getElem? child)

/-- No formula stands at two positions of the tree. -/
def Unrepeated (f : Formula) : Prop :=
  ∀ p q g, f.at? p = some g → f.at? q = some g → p = q

/-- No lower end is listed twice exactly if it tells the edge: its upper end and which child it is. -/
theorem nodup_ends_iff (f : Formula) : f.ends.Nodup ↔
    ∀ parent ∈ f.subformulas, ∀ other ∈ f.subformulas, ∀ (g : Formula) (i j : Nat),
      parent.subs[i]? = some g → other.subs[j]? = some g → parent = other ∧ i = j := by
  rw [ends, List.nodup_flatMap]
  constructor
  · rintro ⟨children, parents⟩ parent inside other inside' g i j child child'
    have symmetric : Std.Symm (Function.onFun List.Disjoint subs) :=
      ⟨fun _ _ => List.disjoint_symm⟩
    have same : parent = other := Classical.byContradiction fun different =>
      parents.forall inside inside' different (List.mem_of_getElem? child) (List.mem_of_getElem? child')
    subst same
    obtain ⟨bound, _⟩ := List.getElem?_eq_some_iff.mp child
    exact ⟨rfl, (List.getElem?_inj bound (children parent inside)).mp (child.trans child'.symm)⟩
  · intro edge
    constructor
    · intro parent inside
      rw [List.nodup_iff_injective_getElem]
      intro i j equal
      have child := List.getElem?_eq_getElem i.isLt
      have child' := (List.getElem?_eq_getElem j.isLt).trans (congrArg some equal.symm)
      exact Fin.ext (edge parent inside parent inside _ i j child child').2
    · refine f.nodup_subformulas.pairwise_of_forall_ne fun parent inside other inside' different => ?_
      intro g child child'
      obtain ⟨i, atChild⟩ := List.getElem?_of_mem child
      obtain ⟨j, atChild'⟩ := List.getElem?_of_mem child'
      exact different (edge parent inside other inside' g i j atChild atChild').1

/-- If no two edges have the same lower end, a position can be traced back to the root step by step. -/
theorem unrepeated_of_nodup_ends {f : Formula} (distinct : f.ends.Nodup) : f.Unrepeated := by
  have edge := f.nodup_ends_iff.mp distinct
  have inside (p : Position) (g : Formula) (found : f.at? p = some g) : g ∈ f.subformulas :=
    (mem_subformulas_iff_at? f g).mpr ⟨p, found⟩
  have root : ∀ p i, f.at? (p ++ [i]) ≠ some f := by
    intro p i found
    obtain ⟨parent, above, child⟩ := (at?_concat_iff f f p i).mp found
    have member : f ∈ f.ends :=
      List.mem_flatMap.mpr ⟨parent, inside p parent above, List.mem_of_getElem? child⟩
    exact ((mem_ends_iff f f).mp member).1 rfl
  intro p
  induction p using List.reverseRecOn with
  | nil =>
    intro q g atRoot found
    obtain rfl := Option.some.inj atRoot
    rcases List.eq_nil_or_concat q with rfl | ⟨q, j, rfl⟩
    · rfl
    · exact absurd (List.concat_eq_append ▸ found) (root q j)
  | append_singleton p i ih =>
    intro q g found found'
    obtain ⟨parent, above, child⟩ := (at?_concat_iff f g p i).mp found
    rcases List.eq_nil_or_concat q with rfl | ⟨q, j, rfl⟩
    · obtain rfl := Option.some.inj found'
      exact absurd found (root p i)
    · rw [List.concat_eq_append] at found' ⊢
      obtain ⟨other, above', child'⟩ := (at?_concat_iff f g q j).mp found'
      obtain ⟨rfl, rfl⟩ := edge parent (inside p parent above) other (inside q other above') g i j
        child child'
      rw [ih q parent above above']

theorem nodup_ends_of_unrepeated {f : Formula} (once : f.Unrepeated) : f.ends.Nodup := by
  refine f.nodup_ends_iff.mpr fun parent inside other inside' g i j child child' => ?_
  obtain ⟨p, above⟩ := (mem_subformulas_iff_at? f parent).mp inside
  obtain ⟨q, above'⟩ := (mem_subformulas_iff_at? f other).mp inside'
  have way := once _ _ g ((at?_concat_iff f g p i).mpr ⟨parent, above, child⟩)
    ((at?_concat_iff f g q j).mpr ⟨other, above', child'⟩)
  obtain ⟨rfl, index⟩ := List.append_inj' way rfl
  exact ⟨Option.some.inj (above.symm.trans above'), List.singleton_inj.mp index⟩

/-- The measures of a formula agree with each other. The height, computed once for each distinct
subformula, is what plain recursion finds, namely the number of steps of the longest way down to a
formula without children. The walk yields more formulas than that, and at most one more than there
are edges; exactly one more if and only if no formula stands at two positions of the tree. -/
theorem height_walk_size (f : Formula) :
    f.fold (ε := Empty) (fun _ => .ok 0) (fun _ => heightAbove) = .ok f.height ∧
    f.height = heightAbove (f.subs.map height) ∧
    IsGreatest {n | ∃ below, Descent f below ∧ below.length = n} f.height ∧
    (f.height = 0 ↔ f.subs = []) ∧
    f.height + 1 ≤ f.subformulas.length ∧
    f.subformulas.length ≤ f.size + 1 ∧
    (f.subformulas.length = f.size + 1 ↔ f.Unrepeated) := by
  obtain ⟨bound, equal⟩ := f.length_walk_edges
  obtain ⟨below, way, length⟩ := f.exists_descent
  refine ⟨f.fold_height, f.height_eq, f.isGreatest_height, f.height_eq_zero_iff, ?_, bound, ?_⟩
  · rw [← length]
    exact way.length_lt_walk
  · rw [equal]
    exact ⟨unrepeated_of_nodup_ends, nodup_ends_of_unrepeated⟩

end Clausal.Formula
