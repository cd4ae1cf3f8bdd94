import Clausal.Proofs.Formula.Preorder
import Mathlib.Data.List.Perm.Subperm

namespace Clausal.Formula

theorem mem_push_seen (seen : Std.HashSet Formula) (stack fs : List Formula) (g : Formula) :
    g ∈ (push seen stack fs).1 ↔ g ∈ seen ∨ g ∈ fs := by
  induction fs generalizing seen stack with
  | nil => simp [push]
  | cons f fs ih =>
    rw [push]
    split
    · rename_i known
      rw [Std.HashSet.contains_iff_mem] at known
      rw [ih, List.mem_cons]
      constructor
      · rintro (old | new)
        · exact Or.inl old
        · exact Or.inr (Or.inr new)
      · rintro (old | rfl | new)
        · exact Or.inl old
        · exact Or.inl known
        · exact Or.inr new
    · rw [ih, Std.HashSet.mem_insert, beq_iff_eq, List.mem_cons, eq_comm, or_comm (a := g = f),
        or_assoc]

theorem mem_push_stack (seen : Std.HashSet Formula) (stack fs : List Formula) (g : Formula) :
    g ∈ (push seen stack fs).2 ↔ g ∈ stack ∨ g ∈ fs ∧ g ∉ seen := by
  induction fs generalizing seen stack with
  | nil => simp [push]
  | cons f fs ih =>
    rw [push]
    split
    · rename_i known
      rw [Std.HashSet.contains_iff_mem] at known
      rw [ih, List.mem_cons]
      refine or_congr_right ⟨fun new => ⟨Or.inr new.1, new.2⟩, ?_⟩
      rintro ⟨rfl | new, unseen⟩
      · exact absurd known unseen
      · exact ⟨new, unseen⟩
    · rename_i unknown
      rw [Std.HashSet.contains_iff_mem] at unknown
      rw [ih, Std.HashSet.mem_insert, beq_iff_eq, List.mem_cons, List.mem_cons]
      by_cases same : g = f
      · subst same
        simp [unknown]
      · simp [same, Ne.symm same]

theorem nodup_push_stack {seen : Std.HashSet Formula} {stack : List Formula} (distinct : stack.Nodup)
    (known : ∀ g ∈ stack, g ∈ seen) (fs : List Formula) : (push seen stack fs).2.Nodup := by
  induction fs generalizing seen stack with
  | nil => exact distinct
  | cons f fs ih =>
    rw [push]
    split
    · exact ih distinct known
    · rename_i unknown
      rw [Std.HashSet.contains_iff_mem] at unknown
      refine ih (List.nodup_cons.mpr ⟨fun waiting => unknown (known f waiting), distinct⟩) ?_
      intro g waiting
      rw [Std.HashSet.mem_insert, beq_iff_eq]
      rcases List.mem_cons.mp waiting with rfl | old
      · exact Or.inl rfl
      · exact Or.inr (known g old)

theorem mem_subformulasFrom_of_mem {seen : Std.HashSet Formula} {stack : List Formula} {g : Formula}
    (waiting : g ∈ stack) : g ∈ subformulasFrom seen stack := by
  fun_induction subformulasFrom seen stack with
  | case1 seen => exact waiting
  | case2 seen f stack next ih =>
    rcases List.mem_cons.mp waiting with rfl | waiting
    · exact List.mem_cons_self
    · exact .tail _ (ih ((mem_push_stack seen stack f.subs g).mpr (Or.inl waiting)))

/-- The walk yields the children of what it yields, except for those seen before it began. -/
theorem mem_subformulasFrom_of_mem_subs {seen : Std.HashSet Formula} {stack : List Formula}
    {g child : Formula} (yielded : g ∈ subformulasFrom seen stack) (below : child ∈ g.subs) :
    child ∈ seen ∨ child ∈ subformulasFrom seen stack := by
  fun_induction subformulasFrom seen stack with
  | case1 seen => simp at yielded
  | case2 seen f stack next ih =>
    have pushed : child ∈ f.subs → child ∈ seen ∨ child ∈ f :: subformulasFrom next.1 next.2 := by
      intro atTop
      by_cases known : child ∈ seen
      · exact Or.inl known
      · have waiting := (mem_push_stack seen stack f.subs child).mpr (Or.inr ⟨atTop, known⟩)
        exact Or.inr (.tail _ (mem_subformulasFrom_of_mem waiting))
    rcases List.mem_cons.mp yielded with rfl | later
    · exact pushed below
    · rcases ih later with known | found
      · rcases (mem_push_seen seen stack f.subs child).mp known with old | atTop
        · exact Or.inl old
        · exact pushed atTop
      · exact Or.inr (.tail _ found)

theorem mem_preorder_of_mem_subformulasFrom {seen : Std.HashSet Formula} {stack : List Formula}
    {g : Formula} (yielded : g ∈ subformulasFrom seen stack) : ∃ f ∈ stack, g ∈ f.preorder := by
  fun_induction subformulasFrom seen stack with
  | case1 seen => simp at yielded
  | case2 seen f stack next ih =>
    rcases List.mem_cons.mp yielded with rfl | later
    · exact ⟨g, List.mem_cons_self, g.self_mem_preorder⟩
    · obtain ⟨h, waiting, inside⟩ := ih later
      rcases (mem_push_stack seen stack f.subs h).mp waiting with old | ⟨child, _⟩
      · exact ⟨h, .tail _ old, inside⟩
      · exact ⟨f, List.mem_cons_self, preorder_trans inside (mem_preorder_of_mem_subs child)⟩

/-- The walk yields nothing twice, as all that waits on the stack was seen and waits once. Of what was
seen it yields only what waits. -/
theorem nodup_subformulasFrom {seen : Std.HashSet Formula} {stack : List Formula}
    (distinct : stack.Nodup) (known : ∀ g ∈ stack, g ∈ seen) :
    (subformulasFrom seen stack).Nodup ∧ ∀ g ∈ subformulasFrom seen stack, g ∈ seen → g ∈ stack := by
  fun_induction subformulasFrom seen stack with
  | case1 seen => exact ⟨List.nodup_nil, fun g yielded _ => yielded⟩
  | case2 seen f stack next ih =>
    obtain ⟨apart, rest⟩ := List.nodup_cons.mp distinct
    have knownRest : ∀ g ∈ stack, g ∈ seen := fun g waiting => known g (.tail _ waiting)
    have knownNext : ∀ g ∈ next.2, g ∈ next.1 := by
      intro g waiting
      rw [mem_push_seen]
      exact ((mem_push_stack seen stack f.subs g).mp waiting).imp (knownRest g) And.left
    obtain ⟨distinctLater, later⟩ := ih (nodup_push_stack rest knownRest f.subs) knownNext
    have old : ∀ g ∈ subformulasFrom next.1 next.2, g ∈ seen → g ∈ stack := by
      intro g yielded before
      have waiting := later g yielded ((mem_push_seen seen stack f.subs g).mpr (Or.inl before))
      exact ((mem_push_stack seen stack f.subs g).mp waiting).resolve_right fun new => new.2 before
    refine ⟨List.nodup_cons.mpr ⟨fun again => ?_, distinctLater⟩, fun g yielded before => ?_⟩
    · exact apart (old f again (known f List.mem_cons_self))
    · rcases List.mem_cons.mp yielded with rfl | yielded
      · exact List.mem_cons_self
      · exact .tail _ (old g yielded before)

theorem nodup_subformulas (f : Formula) : f.subformulas.Nodup := by
  have single : [f].Nodup := List.pairwise_singleton _ f
  refine (nodup_subformulasFrom single fun g waiting => ?_).1
  rw [List.mem_singleton.mp waiting]
  simp

/-- The walk yields exactly the formulas that occur in the tree. -/
theorem mem_subformulas_iff (f g : Formula) : g ∈ f.subformulas ↔ g ∈ f.preorder := by
  constructor
  · intro yielded
    obtain ⟨h, atStart, inside⟩ := mem_preorder_of_mem_subformulasFrom yielded
    rwa [List.mem_singleton.mp atStart] at inside
  · have closed : ∀ h, h ∈ f.subformulas → ∀ g ∈ h.preorder, g ∈ f.subformulas := by
      intro h
      induction h using node_induction with
      | var name =>
        intro yielded g inside
        have same : g = .var name := by simpa [preorder] using inside
        rwa [same]
      | node c h root ih =>
        intro yielded g inside
        rw [preorder_eq, List.mem_cons, List.mem_flatMap] at inside
        rcases inside with rfl | ⟨child, below, inside⟩
        · exact yielded
        · refine ih child below ?_ g inside
          rcases mem_subformulasFrom_of_mem_subs yielded below with known | found
          · have same : f = child := by simpa using known
            exact same ▸ mem_subformulasFrom_of_mem List.mem_cons_self
          · exact found
    exact closed f (mem_subformulasFrom_of_mem List.mem_cons_self) g

/-- Of two lists with the same members, one without repetitions is the shorter, or else the other has
none either. -/
theorem length_le_of_nodup {α : Type} {as bs : List α} (distinct : as.Nodup)
    (same : ∀ a, a ∈ as ↔ a ∈ bs) :
    as.length ≤ bs.length ∧ (as.length = bs.length ↔ bs.Nodup) := by
  have inside : as.Subperm bs := distinct.subperm fun a member => (same a).mp member
  refine ⟨inside.length_le, fun equal => ?_, fun once => ?_⟩
  · exact (inside.perm_of_length_le (Nat.le_of_eq equal.symm)).nodup_iff.mp distinct
  · exact ((List.perm_ext_iff_of_nodup distinct once).mpr same).length_eq

/-- The names of a formula are the names at its leaves. -/
@[simp]
theorem mem_names_iff (f : Formula) (name : String) : name ∈ f.names ↔ name ∈ f.leaves := by
  rw [names, Text.mem_sortedNames, leaves, List.mem_filterMap, List.mem_filterMap]
  simp only [mem_subformulas_iff]

end Clausal.Formula
