import Clausal.Proofs.Enumeration
import Mathlib.Algebra.Group.Nat.Defs
import Mathlib.Data.Finset.Card
import Mathlib.Data.Finset.Dedup

namespace Clausal.Model

theorem length_enumerate (names : List String) : (enumerate names).length = 2 ^ names.length := by
  induction names using List.reverseRecOn with
  | nil => rfl
  | append_singleton names last ih =>
    have pairs : (enumerate (names ++ [last])).length = (enumerate names).length * 2 := by
      simp [enumerate_append, List.length_flatMap]
    rw [pairs, ih, List.length_append, List.length_singleton, Nat.pow_succ]

/-- With one more name at the end, each model gives way to two: the numbers of these are twice its own
number, and one more. -/
theorem getElem?_enumerate_append (names : List String) (last : String) (i : Nat) :
    (enumerate (names ++ [last]))[i]? =
      (enumerate names)[i / 2]?.map fun model => model.insert last (i.testBit 0) := by
  rw [enumerate_append]
  induction enumerate names generalizing i with
  | nil => rfl
  | cons model models ih =>
    match i with
    | 0 => rfl
    | 1 => rfl
    | i + 2 =>
      have half : (i + 2) / 2 = i / 2 + 1 := by omega
      have bit : (i + 2).testBit 0 = i.testBit 0 := by
        rw [Nat.testBit_zero, Nat.testBit_zero, Nat.add_mod_right]
      rw [half, bit, List.getElem?_cons_succ, ← ih i]
      rfl

/-- The number of a model in the enumeration has the value of each name as the bit that belongs to the
name's last place. -/
theorem get?_eq_testBit {before after : List String} {name : String} (last : name ∉ after) {i : Nat}
    {model : Model} (listed : (enumerate (before ++ name :: after))[i]? = some model) :
    model.get? name = some (i.testBit after.length) := by
  induction after using List.reverseRecOn generalizing i model with
  | nil =>
    rw [getElem?_enumerate_append, Option.map_eq_some_iff] at listed
    obtain ⟨smaller, _, rfl⟩ := listed
    rw [Table.get?_insert, if_pos rfl, List.length_nil]
  | append_singleton after other ih =>
    rw [List.mem_append, not_or, List.mem_singleton] at last
    rw [← List.cons_append, ← List.append_assoc, getElem?_enumerate_append,
      Option.map_eq_some_iff] at listed
    obtain ⟨smaller, found, rfl⟩ := listed
    rw [Table.get?_insert, if_neg last.2, ih last.1 found, List.length_append, List.length_singleton,
      Nat.testBit_succ]

/-- Whether a model gives each name of a set its value under `v`. -/
def matching (v : String → Bool) (s : Finset String) (model : Model) : Bool :=
  decide (∀ name ∈ s, model.get? name = some (v name))

theorem matching_insert (v : String → Bool) (s : Finset String) (model : Model) (last : String) (b : Bool) :
    matching v s (model.insert last b) =
      (decide (last ∈ s → b = v last) && matching v (s.erase last) model) := by
  simp only [matching, ← Bool.decide_and, decide_eq_decide, Table.get?_insert, Finset.mem_erase]
  constructor
  · intro all
    refine ⟨fun inside => ?_, fun name other => ?_⟩
    · have value := all last inside
      rwa [if_pos rfl, Option.some.injEq] at value
    · have value := all name other.2
      rwa [if_neg other.1] at value
  · rintro ⟨own, others⟩ name inside
    by_cases same : name = last
    · subst same
      rw [if_pos rfl, own inside]
    · rw [if_neg same]
      exact others name ⟨same, inside⟩

theorem countP_enumerate_append (p : Model → Bool) (names : List String) (last : String) :
    (enumerate (names ++ [last])).countP p =
      (enumerate names).countP (fun model => p (model.insert last false)) +
        (enumerate names).countP fun model => p (model.insert last true) := by
  rw [enumerate_append]
  induction enumerate names with
  | nil => rfl
  | cons model models ih =>
    rw [List.flatMap_cons, List.countP_append, ih]
    simp only [List.countP_cons, List.countP_nil]
    omega

/-- The more names are to match, the fewer models do: each name of the set halves their number. -/
theorem countP_enumerate (v : String → Bool) (names : List String) (s : Finset String)
    (included : s ⊆ names.toFinset) :
    (enumerate names).countP (matching v s) * 2 ^ s.card = 2 ^ names.length := by
  induction names using List.reverseRecOn generalizing s with
  | nil =>
    obtain rfl := Finset.subset_empty.mp included
    rfl
  | append_singleton names last ih =>
    have rest : s.erase last ⊆ names.toFinset := by
      intro name inside
      obtain ⟨other, inside⟩ := Finset.mem_erase.mp inside
      have listed := List.mem_toFinset.mp (included inside)
      rw [List.mem_append, List.mem_singleton] at listed
      exact List.mem_toFinset.mpr (listed.resolve_right other)
    have smaller := ih (s.erase last) rest
    rw [countP_enumerate_append, List.length_append, List.length_singleton, Nat.pow_succ, ← smaller]
    simp only [matching_insert]
    by_cases inside : last ∈ s
    · -- one of the two models that extend a smaller one has the value asked for
      rw [← Finset.card_erase_add_one inside, Nat.pow_succ]
      cases v last <;> simp [inside, Nat.mul_assoc]
    · rw [Finset.erase_eq_of_notMem inside]
      simp only [inside, false_implies, decide_true, Bool.true_and]
      rw [← Nat.two_mul, Nat.mul_comm 2, Nat.mul_right_comm]

theorem countP_enumerate_values (v : String → Bool) (names : List String) :
    (enumerate names).countP (fun model => decide (∀ name ∈ names, model.get? name = some (v name))) =
      2 ^ (names.length - names.toFinset.card) := by
  have counted := countP_enumerate v names names.toFinset (Finset.Subset.refl _)
  have same : matching v names.toFinset =
      fun model => decide (∀ name ∈ names, model.get? name = some (v name)) := by
    funext model
    simp only [matching, List.mem_toFinset]
  rw [← same]
  refine Nat.eq_of_mul_eq_mul_right (Nat.two_pow_pos names.toFinset.card) ?_
  rw [counted, ← Nat.pow_add, Nat.sub_add_cancel names.toFinset_card_le]

theorem append_lt_append {xs ys : List Bool} (same : xs.length = ys.length) (less : xs < ys) (as bs : List Bool) :
    xs ++ as < ys ++ bs := by
  induction less with
  | nil => cases same
  | rel head => exact .rel head
  | cons _ ih => exact .cons (ih (Nat.succ.inj same))

/-- The enumeration of distinct names is in lexicographic order. -/
theorem pairwise_values_enumerate {names : List String} (distinct : names.Nodup) :
    (enumerate names).Pairwise fun m n => names.map m.total < names.map n.total := by
  induction names using List.reverseRecOn with
  | nil => exact List.pairwise_singleton _ _
  | append_singleton names last ih =>
    obtain ⟨rest, _, different⟩ := List.nodup_append.mp distinct
    have new : last ∉ names := fun inside => different last inside last (List.mem_singleton_self _) rfl
    have values (m : Model) (b : Bool) :
        (names ++ [last]).map (total (m.insert last b)) = names.map m.total ++ [b] := by
      rw [List.map_append, List.map_singleton]
      congr 1
      · refine List.map_congr_left fun name inside => ?_
        rw [total, Table.get?_insert, if_neg (ne_of_mem_of_not_mem inside new), total]
      · rw [total, Table.get?_insert, if_pos rfl, Option.getD_some]
    rw [enumerate_append, List.pairwise_flatMap]
    refine ⟨fun m _ => List.pairwise_pair.mpr ?_, (ih rest).imp fun {m n} less M extended N extended' => ?_⟩
    · rw [values, values]
      exact List.append_left_lt (.rel (by decide))
    · have longer := append_lt_append (by rw [List.length_map, List.length_map]) less
      simp only [List.mem_cons, List.not_mem_nil, or_false] at extended extended'
      rcases extended with rfl | rfl <;> rcases extended' with rfl | rfl <;>
        rw [values, values] <;> exact longer _ _

/-- The enumeration of `n` names has `2 ^ n` models and counts in binary. Model number `i` has the names
as its keys, and gives each the bit of `i`, written with `n` digits, at the last place where the name is
listed. So each way to give values to the names comes up equally often: once for distinct names, and
then the models are in lexicographic order. -/
theorem enumerate_counts (names : List String) :
    (enumerate names).length = 2 ^ names.length ∧
    (∀ i model, (enumerate names)[i]? = some model → model.Assigns names ∧
      ∀ before name after, names = before ++ name :: after → name ∉ after →
        model.get? name = some ((BitVec.ofNat names.length i).getMsbD before.length)) ∧
    (∀ v : String → Bool,
      (enumerate names).countP (fun model => decide (∀ name ∈ names, model.get? name = some (v name))) =
        2 ^ (names.length - names.toFinset.card)) ∧
    (names.Nodup →
      (∀ v : String → Bool, (enumerate names).countP
        (fun model => decide (∀ name ∈ names, model.get? name = some (v name))) = 1) ∧
      (enumerate names).Pairwise fun m n => names.map m.total < names.map n.total) := by
  refine ⟨length_enumerate names, fun i model listed => ⟨?_, ?_⟩, fun v => countP_enumerate_values v names,
    fun distinct => ⟨fun v => ?_, pairwise_values_enumerate distinct⟩⟩
  · exact assigns_of_mem_enumerate (List.mem_of_getElem? listed)
  · rintro before name after rfl last
    have place : (before ++ name :: after).length - 1 - before.length = after.length := by
      rw [List.length_append, List.length_cons]
      omega
    have bound : before.length < (before ++ name :: after).length := by
      rw [List.length_append, List.length_cons]
      omega
    have below : after.length < (before ++ name :: after).length := by
      rw [List.length_append, List.length_cons]
      omega
    rw [get?_eq_testBit last listed, BitVec.getMsbD, place, BitVec.getLsbD_ofNat, decide_eq_true bound,
      decide_eq_true below, Bool.true_and, Bool.true_and]
  · rw [countP_enumerate_values, List.toFinset_card_of_nodup distinct, Nat.sub_self, Nat.pow_zero]

end Clausal.Model
