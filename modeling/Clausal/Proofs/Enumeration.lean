import Mathlib.Data.List.Induction
import Clausal.Proofs.Model

namespace Clausal.Model

theorem Same.total_eq {m n : Model} (same : m.Same n) : m.total = n.total := by
  funext name
  rw [total, total, same name]

theorem Assigns.perm {model : Model} {names others : List String} (given : model.Assigns names)
    (permuted : names.Perm others) : model.Assigns others :=
  ⟨given.nodup, fun name => (given.mem_keys name).trans permuted.mem_iff⟩

/-- Models of the same names that agree on these names are the same. -/
theorem Assigns.same_iff {m n : Model} {names : List String} (left : m.Assigns names)
    (right : n.Assigns names) : m.Same n ↔ names.map m.get? = names.map n.get? := by
  rw [List.map_inj_left]
  constructor
  · exact fun same name _ => same name
  · intro agree name
    by_cases member : name ∈ names
    · exact agree name member
    · rw [get?_of_not_mem fun key => member ((left.mem_keys name).mp key),
        get?_of_not_mem fun key => member ((right.mem_keys name).mp key)]

theorem enumerate_append (names : List String) (name : String) :
    enumerate (names ++ [name]) =
      (enumerate names).flatMap fun model => [model.insert name false, model.insert name true] := by
  rw [enumerate, List.foldl_append]
  rfl

theorem mem_enumerate_append {names : List String} {name : String} {model : Model} :
    model ∈ enumerate (names ++ [name]) ↔
      ∃ smaller ∈ enumerate names, ∃ b, model = smaller.insert name b := by
  rw [enumerate_append, List.mem_flatMap]
  refine exists_congr fun smaller => and_congr_right fun _ => ?_
  rw [Bool.exists_bool]
  simp only [List.mem_cons, List.not_mem_nil, or_false]

theorem assigns_of_mem_enumerate {names : List String} {model : Model}
    (member : model ∈ enumerate names) : model.Assigns names := by
  induction names using List.reverseRecOn generalizing model with
  | nil =>
    obtain rfl := List.mem_singleton.mp member
    exact ⟨List.nodup_nil, fun name => Iff.rfl⟩
  | append_singleton names last ih =>
    obtain ⟨smaller, inside, b, rfl⟩ := mem_enumerate_append.mp member
    have given := ih inside
    refine ⟨Table.nodup_keys_insert given.nodup last b, fun name => ?_⟩
    rw [Table.mem_keys_insert, given.mem_keys, List.mem_append, List.mem_singleton, or_comm]

/-- The enumeration leaves out no way to give truth values to the names. -/
theorem exists_mem_enumerate {names : List String} {model : Model} (given : model.Assigns names) :
    ∃ listed ∈ enumerate names, listed.Same model := by
  have every : ∀ names : List String, ∃ listed ∈ enumerate names, ∀ name ∈ names,
      listed.get? name = some (model.total name) := by
    intro names
    induction names using List.reverseRecOn with
    | nil =>
      exact ⟨⟨[]⟩, List.mem_singleton_self _, fun name inside => absurd inside List.not_mem_nil⟩
    | append_singleton names last ih =>
      obtain ⟨smaller, member, values⟩ := ih
      have listed : smaller.insert last (model.total last) ∈ enumerate (names ++ [last]) :=
        mem_enumerate_append.mpr ⟨smaller, member, _, rfl⟩
      refine ⟨smaller.insert last (model.total last), listed, ?_⟩
      intro name inside
      rw [Table.get?_insert]
      split
      · rename_i atLast
        rw [atLast]
      · rename_i other
        have earlier := (List.mem_append.mp inside).resolve_right fun atLast =>
          other (List.mem_singleton.mp atLast)
        exact values name earlier
  obtain ⟨listed, member, values⟩ := every names
  refine ⟨listed, member, ((assigns_of_mem_enumerate member).same_iff given).mpr ?_⟩
  refine List.map_congr_left fun name inside => ?_
  rw [values name inside, get?_of_mem ((given.mem_keys name).mpr inside)]

/-- The enumeration of distinct names lists no model twice. -/
theorem pairwise_enumerate {names : List String} (distinct : names.Nodup) :
    (enumerate names).Pairwise fun m n => ¬m.Same n := by
  induction names using List.reverseRecOn with
  | nil => exact List.pairwise_singleton _ _
  | append_singleton names last ih =>
    obtain ⟨rest, _, different⟩ := List.nodup_append.mp distinct
    have new : last ∉ names := fun inside => different last inside last (List.mem_singleton_self _) rfl
    rw [enumerate_append, List.pairwise_flatMap]
    refine ⟨fun smaller _ => List.pairwise_pair.mpr fun same => ?_, ?_⟩
    · have values := same last
      rw [Table.get?_insert, Table.get?_insert, if_pos rfl, if_pos rfl] at values
      cases values
    · refine (ih rest).imp_of_mem fun {m n} left right differ M extended N extended' same => ?_
      -- both were extended by the last name only, so they differ where they did before
      have keeps : ∀ {m : Model}, m ∈ enumerate names → m.get? last = none := fun member =>
        get?_of_not_mem fun key => new (((assigns_of_mem_enumerate member).mem_keys last).mp key)
      refine differ fun name => ?_
      by_cases atLast : name = last
      · rw [atLast, keeps left, keeps right]
      · have values := same name
        simp only [List.mem_cons, List.not_mem_nil, or_false] at extended extended'
        rcases extended with rfl | rfl <;> rcases extended' with rfl | rfl <;>
          simpa only [Table.get?_insert, if_neg atLast] using values

end Clausal.Model
