import Clausal.Proofs.Formula.Truth
import Mathlib.Data.List.Forall2

namespace Clausal.Formula

/-- How a hash is computed: from the name of a variable, or from the connective of a node and the
hashes of its children. Different formulas may get the same hash. -/
abbrev Hashing (H : Type) := String ⊕ Connective → List H → H

/-- A formula as an object. Objects never change, so each is written with the ones below it inside
it, and its place tells it from others that look the same. A node keeps the hash that it was given
when it was made. -/
inductive Object (H : Type) where
  | leaf (place : Nat) (name : String)
  | join (place : Nat) (c : Connective) (stored : H) (children : List (Object H))

variable {H : Type}

namespace Object

def place : Object H → Nat
  | leaf p _ => p
  | join p _ _ _ => p

def root : Object H → String ⊕ Connective
  | leaf _ name => .inl name
  | join _ c _ _ => .inr c

def subs : Object H → List (Object H)
  | leaf _ _ => []
  | join _ _ _ xs => xs

/-- The hash of an object. That of a node is not computed again. -/
def digest (hash : Hashing H) : Object H → H
  | leaf _ name => hash (.inl name) []
  | join _ _ stored _ => stored

mutual

/-- The formula that an object unfolds to. -/
def formula? : Object H → Option Formula
  | leaf _ name => some (var name)
  | join _ c _ xs => (formulas? xs).bind (node? c)

def formulas? : List (Object H) → Option (List Formula)
  | [] => some []
  | x :: xs => x.formula?.bind fun f => (formulas? xs).map (f :: ·)

end

mutual

/-- Equality of objects. A node is equal to itself without a look at its children, and nodes with
different hashes differ without one. -/
def same [DecidableEq H] : Object H → Object H → Bool
  | leaf _ m, leaf _ n => m == n
  | join p c d xs, join q e k ys => p == q || (c == e && (d == k && sameEach xs ys))
  | leaf _ _, join _ _ _ _ => false
  | join _ _ _ _, leaf _ _ => false

/-- Equality position by position. One object in both positions is not asked whether it equals
itself. -/
def sameEach [DecidableEq H] : List (Object H) → List (Object H) → Bool
  | [], [] => true
  | x :: xs, y :: ys => (x.place == y.place || x.same y) && sameEach xs ys
  | [], _ :: _ => false
  | _ :: _, [] => false

end

/-- Whether a set or a table that holds one object finds it when it is asked for the other. -/
def finds [DecidableEq H] (hash : Hashing H) (x y : Object H) : Bool :=
  x.digest hash == y.digest hash && (x.place == y.place || x.same y)

end Object

/-- The hash that follows from a formula alone. -/
def hashed (hash : Hashing H) (f : Formula) : H :=
  match f.fold (ε := Empty) (fun name => .ok (hash (.inl name) [])) (fun c => hash (.inr c)) with
  | .ok h => h

theorem hashed_var (hash : Hashing H) (name : String) :
    (var name).hashed hash = hash (.inl name) [] := rfl

theorem fold_hashed (hash : Hashing H) (f : Formula) :
    f.fold (ε := Empty) (fun name => .ok (hash (.inl name) [])) (fun c => hash (.inr c)) =
      .ok (f.hashed hash) := by
  rw [hashed]
  cases f.fold (ε := Empty) (fun name => .ok (hash (.inl name) [])) (fun c => hash (.inr c)) with
  | error e => exact e.elim
  | ok h => rfl

theorem hashed_node (hash : Hashing H) {c : Connective} {f : Formula} (root : f.connective? = some c) :
    f.hashed hash = hash (.inr c) (f.subs.map (hashed hash)) :=
  eq_join_of_fold (fold_hashed hash) root

namespace Object

/-- Induction for objects and for lists of objects at once. -/
theorem forest_induction {motive : Object H → Prop} {motiveAll : List (Object H) → Prop}
    (leaf : ∀ p name, motive (leaf p name))
    (join : ∀ p c stored xs, motiveAll xs → motive (join p c stored xs))
    (nil : motiveAll []) (cons : ∀ x xs, motive x → motiveAll xs → motiveAll (x :: xs)) :
    (∀ x, motive x) ∧ ∀ xs, motiveAll xs :=
  ⟨@Object.rec H motive motiveAll leaf join nil cons,
    @Object.rec_1 H motive motiveAll leaf join nil cons⟩

theorem node_induction {motive : Object H → Prop} (leaf : ∀ p name, motive (leaf p name))
    (join : ∀ p c stored xs, (∀ x ∈ xs, motive x) → motive (join p c stored xs)) (x : Object H) :
    motive x :=
  (forest_induction leaf join (List.forall_mem_nil _)
    fun _ _ first rest => List.forall_mem_cons.mpr ⟨first, rest⟩).1 x

theorem formula?_join_iff (p : Nat) (c : Connective) (stored : H) (xs : List (Object H)) (f : Formula) :
    (join p c stored xs).formula? = some f ↔ formulas? xs = some f.subs ∧ f.connective? = some c := by
  rw [formula?, Option.bind_eq_some_iff]
  constructor
  · rintro ⟨fs, unfolded, made⟩
    obtain ⟨root, rfl⟩ := (node?_eq_some_iff c fs f).mp made
    exact ⟨unfolded, root⟩
  · rintro ⟨unfolded, root⟩
    exact ⟨f.subs, unfolded, (node?_eq_some_iff c f.subs f).mpr ⟨root, rfl⟩⟩

theorem formulas?_cons_iff {x : Object H} {xs : List (Object H)} {fs : List Formula} :
    formulas? (x :: xs) = some fs ↔
      ∃ f gs, x.formula? = some f ∧ formulas? xs = some gs ∧ f :: gs = fs := by
  simp only [formulas?, Option.bind_eq_some_iff, Option.map_eq_some_iff, exists_and_left]

theorem formulas?_congr {xs ys : List (Object H)}
    (alike : List.Forall₂ (fun x y => x.formula? = y.formula?) xs ys) : formulas? xs = formulas? ys := by
  induction alike with
  | nil => rfl
  | cons first _ ih => rw [formulas?, formulas?, first, ih]

end Object

end Clausal.Formula
