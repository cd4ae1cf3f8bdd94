import Clausal.Proofs.Formula.Preorder

namespace Clausal

/-- The way from the root of a formula down to an occurrence: at each node, the child to go to. -/
abbrev Position := List Nat

namespace Formula

def at? : Formula → Position → Option Formula
  | f, [] => some f
  | f, i :: p => f.subs[i]?.bind fun g => g.at? p

mutual

/-- The positions of the composite occurrences, children from left to right. Where the root comes
among the positions below it is for `place` to say. -/
def positions (place : List Position → List Position) : Formula → List Position
  | var _ => []
  | neg sub => place ((sub.positions place).map (0 :: ·))
  | conj subs => place (positionsBelow place subs 0)
  | disj subs => place (positionsBelow place subs 0)
  | imp left right =>
    place ((left.positions place).map (0 :: ·) ++ (right.positions place).map (1 :: ·))
  | iff left right =>
    place ((left.positions place).map (0 :: ·) ++ (right.positions place).map (1 :: ·))

def positionsBelow (place : List Position → List Position) : List Formula → Nat → List Position
  | [], _ => []
  | f :: fs, i => (f.positions place).map (i :: ·) ++ positionsBelow place fs (i + 1)

end

/-- Parents before their children. -/
def preorderPositions (f : Formula) : List Position :=
  f.positions fun below => [] :: below

/-- Children before their parents. -/
def postorderPositions (f : Formula) : List Position :=
  f.positions fun below => below ++ [[]]

theorem positions_node {c : Connective} {f : Formula} (root : f.connective? = some c)
    (place : List Position → List Position) :
    f.positions place = place (positionsBelow place f.subs 0) := by
  cases f <;> cases root <;> simp [positions, positionsBelow, subs]

theorem at?_cons {f g : Formula} {i : Nat} (child : f.subs[i]? = some g) (p : Position) :
    f.at? (i :: p) = g.at? p := by
  rw [at?, child, Option.bind_some]

theorem at?_append (f : Formula) (p q : Position) :
    f.at? (p ++ q) = (f.at? p).bind fun g => g.at? q := by
  induction p generalizing f with
  | nil => rfl
  | cons i p ih =>
    rw [List.cons_append, at?, at?]
    cases f.subs[i]? with
    | none => rfl
    | some g => exact ih g

theorem at?_concat_iff (f g : Formula) (p : Position) (i : Nat) :
    f.at? (p ++ [i]) = some g ↔ ∃ parent, f.at? p = some parent ∧ parent.subs[i]? = some g := by
  rw [at?_append, Option.bind_eq_some_iff]
  refine exists_congr fun parent => and_congr_right fun _ => ?_
  rw [at?]
  cases parent.subs[i]? <;> rfl

/-- The children of a node from a given one on are that one and the children after it. -/
theorem subs_of_drop {f g : Formula} {gs : List Formula} {i : Nat} (rest : f.subs.drop i = g :: gs) :
    f.subs[i]? = some g ∧ f.subs.drop (i + 1) = gs := by
  have tail := congrArg List.tail rest
  rw [List.tail_drop] at tail
  have head := congrArg List.head? rest
  rw [List.head?_drop] at head
  exact ⟨head, tail⟩

/-- The composite occurrences stand at the positions listed, in the same order. -/
theorem at?_preorderPositions :
    (∀ f : Formula, f.preorderPositions.map f.at? = f.composites.map some) ∧
      ∀ fs : List Formula, ∀ (parent : Formula) (i : Nat), parent.subs.drop i = fs →
        (positionsBelow (fun below => [] :: below) fs i).map parent.at? =
          (fs.flatMap composites).map some := by
  refine forest_induction ?var ?node ?nil ?cons
  case var => exact fun name => rfl
  case node =>
    intro c f root ih
    rw [preorderPositions, positions_node root, composites_node root, List.map_cons, List.map_cons,
      ih f 0 List.drop_zero]
    rfl
  case nil => exact fun parent i rest => rfl
  case cons =>
    intro g gs ihg ihs parent i rest
    obtain ⟨child, later⟩ := subs_of_drop rest
    have below : (parent.at? ∘ fun p => i :: p) = g.at? := funext (at?_cons child)
    rw [positionsBelow, List.map_append, List.map_map, below, ihs parent (i + 1) later,
      List.flatMap_cons, List.map_append, ← ihg]
    rfl

theorem length_preorderPositions (f : Formula) :
    f.preorderPositions.length = f.composites.length := by
  have lengths := congrArg List.length (at?_preorderPositions.1 f)
  rwa [List.length_map, List.length_map] at lengths

/-- No occurrence is listed twice. The first step of a position tells the child that it lies in. -/
theorem nodup_preorderPositions :
    (∀ f : Formula, f.preorderPositions.Nodup) ∧ ∀ fs : List Formula, ∀ i,
      (positionsBelow (fun below => [] :: below) fs i).Nodup ∧
        ∀ p ∈ positionsBelow (fun below => [] :: below) fs i, ∃ j q, i ≤ j ∧ p = j :: q := by
  refine forest_induction ?var ?node ?nil ?cons
  case var => exact fun name => List.nodup_nil
  case node =>
    intro c f root ih
    obtain ⟨distinct, steps⟩ := ih 0
    rw [preorderPositions, positions_node root]
    refine List.nodup_cons.mpr ⟨fun atRoot => ?_, distinct⟩
    obtain ⟨j, q, _, same⟩ := steps [] atRoot
    cases same
  case nil => exact fun i => ⟨List.nodup_nil, fun p member => absurd member List.not_mem_nil⟩
  case cons =>
    intro g gs ihg ihs i
    obtain ⟨distinct, steps⟩ := ihs (i + 1)
    have own : (g.preorderPositions.map (i :: ·)).Nodup :=
      List.pairwise_map.mpr (ihg.imp fun different same => different (List.cons.inj same).2)
    rw [positionsBelow]
    refine ⟨List.nodup_append.mpr ⟨own, distinct, ?_⟩, ?_⟩
    · rintro p first _ later rfl
      obtain ⟨q, _, rfl⟩ := List.mem_map.mp first
      obtain ⟨j, _, above, same⟩ := steps _ later
      have index := (List.cons.inj same).1
      omega
    · intro p member
      rcases List.mem_append.mp member with first | later
      · obtain ⟨q, _, rfl⟩ := List.mem_map.mp first
        exact ⟨i, q, Nat.le_refl i, rfl⟩
      · obtain ⟨j, q, above, same⟩ := steps p later
        exact ⟨j, q, by omega, same⟩

/-- Both orders list the same occurrences, each once. -/
theorem postorderPositions_perm :
    (∀ f : Formula, f.postorderPositions.Perm f.preorderPositions) ∧ ∀ fs : List Formula, ∀ i,
      (positionsBelow (fun below => below ++ [[]]) fs i).Perm
        (positionsBelow (fun below => [] :: below) fs i) := by
  refine forest_induction ?var ?node ?nil ?cons
  case var => exact fun name => .rfl
  case node =>
    intro c f root ih
    rw [postorderPositions, preorderPositions, positions_node root, positions_node root]
    exact (List.perm_append_singleton _ _).trans ((ih 0).cons _)
  case nil => exact fun i => .rfl
  case cons =>
    intro g gs ihg ihs i
    rw [positionsBelow, positionsBelow]
    exact (ihg.map _).append (ihs (i + 1))

end Formula

end Clausal
