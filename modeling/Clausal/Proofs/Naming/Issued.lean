import Clausal.Proofs.Naming.Numeral

namespace Clausal.NameSource

/-- One of the `count` names with the numbers after `k`. -/
def Issued (stem : String) (k count : Nat) (name : String) : Prop :=
  ∃ n, k < n ∧ n ≤ k + count ∧ name = numbered stem n

theorem not_issued_zero (stem : String) (k : Nat) (name : String) : ¬Issued stem k 0 name := by
  intro issued
  obtain ⟨n, above, below, _⟩ := issued
  omega

theorem issued_add (stem : String) (k m n : Nat) (name : String) :
    Issued stem k (m + n) name ↔ Issued stem k m name ∨ Issued stem (k + m) n name := by
  constructor
  · intro issued
    obtain ⟨i, above, below, rfl⟩ := issued
    by_cases early : i ≤ k + m
    · exact Or.inl ⟨i, above, early, rfl⟩
    · exact Or.inr ⟨i, by omega, by omega, rfl⟩
  · rintro (⟨i, above, below, rfl⟩ | ⟨i, above, below, rfl⟩)
    · exact ⟨i, above, by omega, rfl⟩
    · exact ⟨i, by omega, by omega, rfl⟩

theorem issued_one (stem : String) (k : Nat) (name : String) :
    Issued stem k 1 name ↔ name = numbered stem (k + 1) := by
  constructor
  · intro issued
    obtain ⟨n, above, below, rfl⟩ := issued
    have same : n = k + 1 := by omega
    rw [same]
  · rintro rfl
    exact ⟨k + 1, by omega, by omega, rfl⟩

theorem Issued.reserved {stem name : String} {k count : Nat} (issued : Issued stem k count name) :
    ∃ n, 1 ≤ n ∧ name = numbered stem n := by
  obtain ⟨n, above, _, same⟩ := issued
  exact ⟨n, by omega, same⟩

theorem mem_drawMany_iff (ambient : String) (count : Nat) (source : NameSource) (name : String) :
    name ∈ (drawMany ambient count source).1 ↔
      Issued (source.stem ambient) source.count count name := by
  induction count generalizing source with
  | zero =>
    have none := not_issued_zero (source.stem ambient) source.count name
    exact iff_of_false List.not_mem_nil none
  | succ count ih =>
    have first := issued_one (source.stem ambient) source.count name
    have rest : name ∈ (drawMany ambient count { source with count := source.count + 1 }).1 ↔
        Issued (source.stem ambient) (source.count + 1) count name := ih _
    have split := issued_add (source.stem ambient) source.count 1 count name
    rw [Nat.add_comm count 1, split, first, ← rest, Nat.add_comm 1 count]
    exact List.mem_cons

theorem length_drawMany (ambient : String) (count : Nat) (source : NameSource) :
    (drawMany ambient count source).1.length = count := by
  induction count generalizing source with
  | zero => rfl
  | succ count ih => exact congrArg (· + 1) (ih _)

theorem nodup_drawMany (ambient : String) (count : Nat) (source : NameSource) :
    (drawMany ambient count source).1.Nodup := by
  induction count generalizing source with
  | zero => exact List.nodup_nil
  | succ count ih =>
    refine List.nodup_cons.mpr ⟨fun again => ?_, ih _⟩
    obtain ⟨n, above, _, same⟩ := (mem_drawMany_iff ambient count _ _).mp again
    have number := numbered_injective same
    simp only at above
    omega

theorem drawMany_after (ambient : String) (count : Nat) (source : NameSource) :
    (drawMany ambient count source).2 = { source with count := source.count + count } := by
  induction count generalizing source with
  | zero => rfl
  | succ count ih =>
    rw [drawMany, draw_eq]
    change (drawMany ambient count { source with count := source.count + 1 }).2 = _
    rw [ih, Nat.add_assoc, Nat.add_comm 1]

theorem drawMany_names (ambient : String) (count : Nat) (source : NameSource) :
    (drawMany ambient count source).1 = (List.replicate count (source.stem ambient)).mapIdx
      fun i stem => numbered stem (source.count + i + 1) := by
  induction count generalizing source with
  | zero => rfl
  | succ count ih =>
    have rest := ih { source with count := source.count + 1 }
    have first : (drawMany ambient (count + 1) source).1 =
        numbered (source.stem ambient) (source.count + 1) ::
          (drawMany ambient count { source with count := source.count + 1 }).1 := rfl
    rw [first, rest, List.replicate_succ, List.mapIdx_cons]
    congr 2
    funext i stem
    rw [Nat.add_right_comm source.count 1 i, Nat.add_assoc source.count i 1]

end Clausal.NameSource
