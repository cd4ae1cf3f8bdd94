import Clausal.Proofs.Formula.Walk
import Mathlib.Data.List.Perm.Basic
import Mathlib.Data.List.Flatten
import Mathlib.Logic.Relation

namespace Clausal.Formula

/-- A finite run of the walk from what was seen and what waits on the stack, with what it yields. -/
inductive WalkRun : Std.HashSet Formula → List Formula → List Formula → Prop
  | done {seen} : WalkRun seen [] []
  | next {seen f stack yielded} :
      WalkRun (push seen stack f.subs).1 (push seen stack f.subs).2 yielded →
        WalkRun seen (f :: stack) (f :: yielded)

theorem walkRun_iff (seen : Std.HashSet Formula) (stack yielded : List Formula) :
    WalkRun seen stack yielded ↔ yielded = subformulasFrom seen stack := by
  constructor
  · intro run
    induction run with
    | done => rw [subformulasFrom]
    | next _ ih => rw [subformulasFrom, ih]
  · rintro rfl
    fun_induction subformulasFrom seen stack with
    | case1 seen => exact .done
    | case2 seen f stack next ih => exact .next ih

abbrev Reaches : Formula → Formula → Prop :=
  Relation.ReflTransGen fun parent child => child ∈ parent.subs

theorem mem_preorder_iff_reaches (f g : Formula) : g ∈ f.preorder ↔ f.Reaches g := by
  constructor
  · intro inside
    induction f using node_induction with
    | var name =>
      have same : g = .var name := by simpa [preorder] using inside
      rw [same]
    | node c f root ih =>
      rw [preorder_eq, List.mem_cons, List.mem_flatMap] at inside
      rcases inside with rfl | ⟨child, below, inside⟩
      · exact .refl
      · exact .head below (ih child below inside)
  · intro reached
    induction reached with
    | refl => exact f.self_mem_preorder
    | tail _ below ih => exact preorder_trans (mem_preorder_of_mem_subs below) ih

/-- If all that waits on the stack lies below what was yielded earlier, then so does all that is yielded
later. -/
theorem parent_mem_of_split (seen : Std.HashSet Formula) (stack after : List Formula) (g : Formula) :
    ∀ earlier before : List Formula, (∀ h ∈ stack, ∃ parent ∈ earlier, h ∈ parent.subs) →
      subformulasFrom seen stack = before ++ g :: after → ∃ parent ∈ earlier ++ before, g ∈ parent.subs := by
  fun_induction subformulasFrom seen stack with
  | case1 seen =>
    intro earlier before _ parts
    simp at parts
  | case2 seen f stack next ih =>
    intro earlier before below parts
    cases before with
    | nil =>
      rw [List.append_nil, ← (List.cons.inj parts).1]
      exact below f List.mem_cons_self
    | cons first before =>
      obtain ⟨rfl, rest⟩ := List.cons.inj parts
      rw [← List.singleton_append, ← List.append_assoc]
      refine ih (earlier ++ [f]) before (fun h waiting => ?_) rest
      rcases (mem_push_stack seen stack f.subs h).mp waiting with old | ⟨child, _⟩
      · obtain ⟨parent, member, child⟩ := below h (.tail _ old)
        exact ⟨parent, List.mem_append_left _ member, child⟩
      · exact ⟨f, List.mem_append_right _ List.mem_cons_self, child⟩

mutual

/-- All occurrences of subformulas, parents before their children and children from right to left. -/
def mirrored : Formula → List Formula
  | var name => [var name]
  | neg sub => neg sub :: sub.mirrored
  | conj subs => conj subs :: mirroredAll subs
  | disj subs => disj subs :: mirroredAll subs
  | imp left right => imp left right :: (right.mirrored ++ left.mirrored)
  | iff left right => iff left right :: (right.mirrored ++ left.mirrored)

def mirroredAll : List Formula → List Formula
  | [] => []
  | f :: fs => mirroredAll fs ++ f.mirrored

end

theorem mirroredAll_eq (fs : List Formula) : mirroredAll fs = fs.reverse.flatMap mirrored := by
  induction fs with
  | nil => rfl
  | cons f fs ih => simp [mirroredAll, ih]

theorem mirrored_eq (f : Formula) : f.mirrored = f :: f.subs.reverse.flatMap mirrored := by
  cases f <;> simp [mirrored, mirroredAll_eq, subs]

/-- The occurrences strictly below the roots of some trees. -/
def inner (fs : List Formula) : List Formula :=
  fs.flatMap fun f => f.subs.flatMap preorder

theorem preorder_perm (fs : List Formula) : (fs.flatMap preorder).Perm (fs ++ inner fs) := by
  have roots : fs.flatMap preorder = fs.flatMap fun f => f :: f.subs.flatMap preorder :=
    List.flatMap_congr fun f _ => f.preorder_eq
  have parts := List.map_append_flatMap_perm fs id fun f => f.subs.flatMap preorder
  rw [List.map_id] at parts
  rw [roots]
  exact parts.symm

theorem push_of_unseen {seen : Std.HashSet Formula} {stack fs : List Formula} (distinct : fs.Nodup)
    (unseen : ∀ g ∈ fs, g ∉ seen) : (push seen stack fs).2 = fs.reverse ++ stack := by
  induction fs generalizing seen stack with
  | nil => rfl
  | cons f fs ih =>
    obtain ⟨apart, distinct⟩ := List.nodup_cons.mp distinct
    have new : ¬seen.contains f = true := by
      rw [Std.HashSet.contains_iff_mem]
      exact unseen f List.mem_cons_self
    rw [push, if_neg new, ih distinct, List.reverse_cons, List.append_assoc, List.singleton_append]
    intro g member
    rw [Std.HashSet.mem_insert, beq_iff_eq, not_or]
    exact ⟨fun same => apart (same ▸ member), unseen g (.tail _ member)⟩

/-- Where no two occurrences are equal, none is found among those seen before its turn. -/
theorem subformulasFrom_eq_mirrored {seen : Std.HashSet Formula} {stack : List Formula}
    (distinct : (stack.flatMap preorder).Nodup) (unseen : ∀ g ∈ inner stack, g ∉ seen) :
    subformulasFrom seen stack = stack.flatMap mirrored := by
  fun_induction subformulasFrom seen stack with
  | case1 seen => rfl
  | case2 seen f stack next ih =>
    rw [List.flatMap_cons, preorder_eq, List.cons_append, List.nodup_cons,
      ← List.flatMap_append] at distinct
    rw [inner, List.flatMap_cons, ← inner] at unseen
    obtain ⟨roots, -, apart⟩ := List.nodup_append.mp ((preorder_perm _).nodup_iff.mp distinct.2)
    have above (g : Formula) := (preorder_perm f.subs).mem_iff (a := g)
    have waiting : next.2 = f.subs.reverse ++ stack :=
      push_of_unseen (List.nodup_append.mp roots).1 fun g child =>
        unseen g (List.mem_append_left _ ((above g).mpr (List.mem_append_left _ child)))
    have moved : next.2.Perm (f.subs ++ stack) := by
      rw [waiting]
      exact (List.reverse_perm f.subs).append_right stack
    have later : ∀ g ∈ inner next.2, g ∉ next.1 := by
      intro g below
      replace below : g ∈ inner (f.subs ++ stack) := (moved.flatMap_right _).mem_iff.mp below
      rw [mem_push_seen, not_or]
      refine ⟨?_, fun child => apart g (List.mem_append_left _ child) g below rfl⟩
      rw [inner, List.flatMap_append, ← inner, ← inner, List.mem_append] at below
      rcases below with own | other
      · exact unseen g (List.mem_append_left _ ((above g).mpr (List.mem_append_right _ own)))
      · exact unseen g (List.mem_append_right _ other)
    rw [ih ((moved.flatMap_right preorder).nodup_iff.mpr distinct.2) later, waiting,
      List.flatMap_append, List.flatMap_cons, mirrored_eq, List.cons_append]

/-- The walk ends. It begins with the formula itself, yields each formula that can be reached from it by
steps to children once, and yields none but the first before one of its parents. Where no two occurrences
are equal it goes from right to left. So the names of a formula are those at its leaves. -/
theorem subformulas_walk (f : Formula) :
    (∀ yielded, WalkRun {f} [f] yielded ↔ yielded = f.subformulas) ∧
    f.subformulas.head? = some f ∧
    f.subformulas.Nodup ∧
    (∀ g, g ∈ f.subformulas ↔ f.Reaches g) ∧
    (∀ before g after, f.subformulas = before ++ g :: after → before ≠ [] →
      ∃ parent ∈ before, g ∈ parent.subs) ∧
    (f.preorder.Nodup → f.subformulas = f.mirrored) ∧
    ∀ name, name ∈ f.names ↔ name ∈ f.leaves := by
  have first : f.subformulas = f :: subformulasFrom (push {f} [] f.subs).1 (push {f} [] f.subs).2 := by
    rw [subformulas, subformulasFrom]
  refine ⟨walkRun_iff _ _, by rw [first]; rfl, f.nodup_subformulas, fun g => ?_, ?_, fun distinct => ?_,
    f.mem_names_iff⟩
  · rw [mem_subformulas_iff, mem_preorder_iff_reaches]
  · intro before g after parts later
    cases before with
    | nil => exact absurd rfl later
    | cons h before =>
      rw [first] at parts
      obtain ⟨rfl, rest⟩ := List.cons.inj parts
      refine parent_mem_of_split _ _ after g [f] before (fun child waiting => ?_) rest
      rcases (mem_push_stack {f} [] f.subs child).mp waiting with old | ⟨below, _⟩
      · exact absurd old List.not_mem_nil
      · exact ⟨f, List.mem_cons_self, below⟩
  · have single : [f].flatMap preorder = f.preorder := List.flatMap_singleton preorder f
    rw [subformulas, subformulasFrom_eq_mirrored (single ▸ distinct), List.flatMap_singleton]
    intro g below known
    have same : f = g := by simpa using known
    rw [inner, List.flatMap_singleton, ← same] at below
    rw [preorder_eq] at distinct
    exact (List.nodup_cons.mp distinct).1 below

end Clausal.Formula
