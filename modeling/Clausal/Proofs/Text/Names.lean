import Clausal.Text.Names

namespace Clausal.Text

theorem pairwise_squeeze {names : List String} (sorted : names.Pairwise (· ≤ ·)) :
    (squeeze names).Pairwise (· < ·) := by
  fun_induction squeeze names with
  | case1 => exact List.Pairwise.nil
  | case2 name => exact List.pairwise_singleton _ name
  | case3 next names ih => exact ih sorted.of_cons
  | case4 first next names differs ih =>
    obtain ⟨below, rest⟩ := List.pairwise_cons.mp sorted
    refine List.pairwise_cons.mpr ⟨fun name member => ?_, ih rest⟩
    have later := (mem_squeeze name (next :: names)).mp member
    have next_le : next ≤ name := by
      rcases List.mem_cons.mp later with same | inside
      · exact same ▸ Std.le_refl next
      · exact (List.pairwise_cons.mp rest).1 name inside
    have first_lt : first < next :=
      Std.lt_of_le_of_ne (below next List.mem_cons_self) differs
    exact Std.lt_of_lt_of_le first_lt next_le

theorem pairwise_sortedNames (names : List String) : (sortedNames names).Pairwise (· < ·) := by
  have sorted : (names.mergeSort fun s t => decide (s ≤ t)).Pairwise fun s t => decide (s ≤ t) = true := by
    refine List.pairwise_mergeSort (fun r s t first second => ?_) (fun s t => ?_) names
    · exact decide_eq_true (String.le_trans (of_decide_eq_true first) (of_decide_eq_true second))
    · rw [Bool.or_eq_true, decide_eq_true_iff, decide_eq_true_iff]
      exact String.le_total s t
  exact pairwise_squeeze (sorted.imp of_decide_eq_true)

theorem nodup_sortedNames (names : List String) : (sortedNames names).Nodup := by
  refine (pairwise_sortedNames names).imp fun {s t} less same => ?_
  exact String.lt_irrefl s (same ▸ less)

/-- A list without repetitions is an ordering of the distinct names of any list with the same names. -/
theorem perm_sortedNames {names others : List String} (distinct : names.Nodup)
    (same : ∀ name, name ∈ names ↔ name ∈ others) : names.Perm (sortedNames others) := by
  refine (List.perm_ext_iff_of_nodup distinct (nodup_sortedNames others)).mpr fun name => ?_
  rw [same, mem_sortedNames]

end Clausal.Text
