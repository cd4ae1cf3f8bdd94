import Clausal.Proofs.Encoding.Translation
import Clausal.Proofs.Formula.Truth
import Clausal.Proofs.Naming.Issued

namespace Clausal

open NameSource (numbered Issued)

namespace Formula

/-- The names with the numbers after `k` have the values of the formulas in turn. -/
def Tracks (v : String → Bool) (stem : String) (k : Nat) (gs : List Formula) : Prop :=
  ∀ i g, gs[i]? = some g → v (numbered stem (k + i + 1)) = g.truth v

section

variable {v : String → Bool} {stem : String}

theorem tracks_nil (k : Nat) : Tracks v stem k [] := by
  intro i g atIndex
  simp at atIndex

theorem tracks_cons (k : Nat) (g : Formula) (gs : List Formula) :
    Tracks v stem k (g :: gs) ↔ v (numbered stem (k + 1)) = g.truth v ∧ Tracks v stem (k + 1) gs := by
  constructor
  · intro tracks
    refine ⟨tracks 0 g rfl, fun i h atIndex => ?_⟩
    have next := tracks (i + 1) h atIndex
    rwa [← Nat.add_assoc, Nat.add_right_comm k i 1] at next
  · intro both i h atIndex
    obtain ⟨first, rest⟩ := both
    cases i with
    | zero =>
      cases atIndex
      exact first
    | succ i =>
      have next := rest i h atIndex
      rwa [Nat.add_right_comm k 1 i, Nat.add_assoc k i 1] at next

theorem tracks_append (k : Nat) (gs hs : List Formula) :
    Tracks v stem k (gs ++ hs) ↔ Tracks v stem k gs ∧ Tracks v stem (k + gs.length) hs := by
  induction gs generalizing k with
  | nil => simp [tracks_nil]
  | cons g gs ih =>
    rw [List.cons_append, tracks_cons, ih, tracks_cons, and_assoc, List.length_cons,
      Nat.add_assoc k 1, Nat.add_comm 1]

theorem label_truth {k : Nat} {f : Formula} (tracks : Tracks v stem k f.composites) :
    v (f.label stem k) = f.truth v := by
  cases root : f.connective? with
  | none =>
    obtain ⟨name, rfl⟩ := (connective?_eq_none_iff f).mp root
    rw [label, truth_var]
  | some c =>
    rw [composites_node root] at tracks
    rw [label_node root]
    exact tracks 0 f rfl

theorem labels_truth {k : Nat} {fs : List Formula} (tracks : Tracks v stem k (fs.flatMap composites)) :
    (labels stem fs k).map v = fs.map (truth v) := by
  induction fs generalizing k with
  | nil => rfl
  | cons f fs ih =>
    rw [List.flatMap_cons, tracks_append] at tracks
    rw [labels, List.map_cons, List.map_cons, label_truth tracks.1, ih tracks.2]

/-- The gates hold exactly if every name has the value of the subformula occurrence that it was
drawn for. This needs no assumption on the names: a gate fixes its name from those of its parts. -/
theorem gates_hold_iff :
    (∀ f : Formula, ∀ k, (∀ g ∈ f.gates stem k, g.Holds v) ↔ Tracks v stem k f.composites) ∧
      ∀ fs : List Formula, ∀ k,
        (∀ g ∈ gatesAll stem fs k, g.Holds v) ↔ Tracks v stem k (fs.flatMap composites) := by
  refine forest_induction ?var ?node ?nil ?cons
  case var => simp [gates, tracks_nil]
  case node =>
    intro c f root ih k
    rw [gates_node root, composites_node root, tracks_cons, List.forall_mem_append, ih,
      List.forall_mem_singleton, and_comm]
    refine and_congr_left fun inside => ?_
    rw [Gate.Holds, labels_truth inside, truth_node root]
  case nil => simp [gatesAll, tracks_nil]
  case cons =>
    intro f fs ihf ihs k
    rw [gatesAll, List.flatMap_cons, tracks_append, List.forall_mem_append, ihf, ihs]

theorem truth_definitions_iff (fs : List Formula) (k : Nat) :
    (definitions stem fs k).truth v = true ↔ Tracks v stem k (fs.flatMap composites) := by
  rw [← gates_hold_iff.2 fs k, definitions, Theory.truth, List.all_flatMap, List.all_eq_true]
  refine forall₂_congr fun g member => ?_
  exact Gate.all_truth_clauses_iff ((gates_fit stem).2 fs k g member) v

end

/-- The labels and the gates mention the names at the leaves and the names drawn, and no others. -/
theorem mem_gate_names_iff (stem : String) :
    (∀ f : Formula, ∀ k name,
      (name = f.label stem k ∨ ∃ g ∈ f.gates stem k, name = g.name ∨ name ∈ g.parts) ↔
        name ∈ f.leaves ∨ Issued stem k f.composites.length name) ∧
    ∀ fs : List Formula, ∀ k name,
      (name ∈ labels stem fs k ∨ ∃ g ∈ gatesAll stem fs k, name = g.name ∨ name ∈ g.parts) ↔
        name ∈ fs.flatMap leaves ∨ Issued stem k (fs.flatMap composites).length name := by
  refine forest_induction ?var ?node ?nil ?cons
  case var =>
    intro name k other
    simp [label, gates, NameSource.not_issued_zero]
  case node =>
    intro c f root ih k name
    have inside := ih (k + 1) name
    rw [composites_node root, List.length_cons, Nat.add_comm _ 1, NameSource.issued_add,
      NameSource.issued_one, leaves_node root, label_node root, gates_node root, or_left_comm, ← inside]
    simp only [List.mem_append, List.mem_singleton, or_and_right, exists_or, exists_eq_left]
    grind
  case nil =>
    intro k name
    simp [labels, gatesAll, NameSource.not_issued_zero]
  case cons =>
    intro f fs ihf ihs k name
    rw [List.flatMap_cons, List.flatMap_cons, List.length_append, NameSource.issued_add,
      List.mem_append, or_or_or_comm, ← ihf, ← ihs, labels, gatesAll]
    simp only [List.mem_append, List.mem_cons, or_and_right, exists_or]
    exact or_or_or_comm

/-- Values where the names with the numbers after `k` have the values of the formulas in turn, and
all other names keep the value they had. -/
def fill (stem : String) (u : String → Bool) : Nat → List Formula → String → Bool
  | _, [], name => u name
  | k, g :: gs, name => if name = numbered stem (k + 1) then g.truth u else fill stem u (k + 1) gs name

theorem fill_of_not_issued {stem : String} {u : String → Bool} {k : Nat} {gs : List Formula}
    {name : String} (other : ¬Issued stem k gs.length name) : fill stem u k gs name = u name := by
  induction gs generalizing k with
  | nil => rfl
  | cons g gs ih =>
    rw [List.length_cons, Nat.add_comm _ 1, NameSource.issued_add, NameSource.issued_one, not_or] at other
    rw [fill, if_neg other.1, ih other.2]

theorem fill_numbered {stem : String} {u : String → Bool} {k i : Nat} {gs : List Formula} {g : Formula}
    (atIndex : gs[i]? = some g) : fill stem u k gs (numbered stem (k + i + 1)) = g.truth u := by
  induction gs generalizing k i with
  | nil => simp at atIndex
  | cons h gs ih =>
    cases i with
    | zero =>
      cases atIndex
      rw [fill, Nat.add_zero, if_pos rfl]
    | succ i =>
      have different : numbered stem (k + (i + 1) + 1) ≠ numbered stem (k + 1) := by
        intro same
        have numbers := NameSource.numbered_injective same
        omega
      rw [fill, if_neg different, ← Nat.add_assoc, Nat.add_right_comm k i 1]
      exact ih (k := k + 1) atIndex

theorem tracks_fill {stem : String} {u : String → Bool} {k : Nat} {gs : List Formula}
    (fresh : ∀ g ∈ gs, ∀ name ∈ g.leaves, ¬Issued stem k gs.length name) :
    Tracks (fill stem u k gs) stem k gs := by
  intro i g atIndex
  rw [fill_numbered atIndex]
  refine truth_congr fun name leaf => ?_
  exact (fill_of_not_issued (fresh g (List.mem_of_getElem? atIndex) name leaf)).symm

end Formula

end Clausal
