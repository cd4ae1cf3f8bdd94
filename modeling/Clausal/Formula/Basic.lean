import Clausal.Connective

namespace Clausal

/-- Mixes a number into a digest. Multiplication carries low bits upwards, and the shift brings high
bits down again. -/
def mix (digest n : UInt64) : UInt64 :=
  let product := (digest ^^^ n) * 0x9e3779b97f4a7c15
  product ^^^ (product >>> 32)

/-- A number computed from the characters of a name. -/
def nameDigest (name : String) : UInt64 :=
  name.toList.foldl (fun h c => mix h c.toNat.toUInt64) 7

/-- Propositional formulas. Every node stores a digest of the tree below it, so that the digest of
a new node is found from those of its subformulas alone. -/
inductive Formula where
  | var (name : String)
  | neg (sub : Formula)
  | conj (subs : List Formula)
  | disj (subs : List Formula)
  | imp (left right : Formula)
  | iff (left right : Formula)
with
  @[computed_field] digest : Formula → UInt64
    | .var name => nameDigest name
    | .neg sub => mix 3 sub.digest
    | .conj subs => subs.attach.foldl (fun h ⟨sub, _⟩ => mix h sub.digest) 5
    | .disj subs => subs.attach.foldl (fun h ⟨sub, _⟩ => mix h sub.digest) 11
    | .imp left right => mix (mix 13 left.digest) right.digest
    | .iff left right => mix (mix 17 left.digest) right.digest

namespace Formula

instance : Inhabited Formula := ⟨conj []⟩

instance : Hashable Formula := ⟨digest⟩

theorem digest_conj (subs : List Formula) :
    (conj subs).digest = subs.foldl (fun h sub => mix h sub.digest) 5 := by
  rw [digest]
  simp

theorem digest_disj (subs : List Formula) :
    (disj subs).digest = subs.foldl (fun h sub => mix h sub.digest) 11 := by
  rw [digest]
  simp

/-- The immediate subformulas, in order. -/
def subs : Formula → List Formula
  | var _ => []
  | neg sub => [sub]
  | conj subs => subs
  | disj subs => subs
  | imp left right => [left, right]
  | iff left right => [left, right]

/-- The connective at the root; a variable has none. -/
def connective? : Formula → Option Connective
  | var _ => none
  | neg _ => some .neg
  | conj _ => some .conj
  | disj _ => some .disj
  | imp _ _ => some .imp
  | iff _ _ => some .iff

/-- The formula with a given connective at the root, if it can have that many subformulas. -/
def node? : Connective → List Formula → Option Formula
  | .neg, [sub] => some (neg sub)
  | .conj, subs => some (conj subs)
  | .disj, subs => some (disj subs)
  | .imp, [left, right] => some (imp left right)
  | .iff, [left, right] => some (iff left right)
  | _, _ => none

theorem node?_eq_some_iff (c : Connective) (subs : List Formula) (f : Formula) :
    node? c subs = some f ↔ f.connective? = some c ∧ f.subs = subs := by
  constructor
  · intro built
    unfold node? at built
    split at built <;> simp_all
    all_goals subst built; simp [connective?, Formula.subs]
  · rintro ⟨root, rfl⟩
    cases f <;> simp_all [connective?, Formula.subs] <;> subst root <;> rfl

/-- Decides equality without a look at the subformulas where it can: the same object in memory is
equal to itself, and formulas with different digests differ. -/
def decideFast (f g : Formula) (look : Unit → Decidable (f = g)) : Decidable (f = g) :=
  withPtrEqDecEq f g fun u =>
    if same : f.digest = g.digest then look u else isFalse fun h => same (congrArg digest h)

mutual

/-- Equality of formulas, node by node from the root. -/
def decEqTree (f g : Formula) : Decidable (f = g) :=
  decideFast f g fun _ =>
    match f, g with
    | var m, var n => if h : m = n then isTrue (by rw [h]) else isFalse (by simpa using h)
    | neg f, neg g =>
      match decEqTree f g with
      | isTrue h => isTrue (by rw [h])
      | isFalse h => isFalse (by simpa using h)
    | conj fs, conj gs =>
      match decEqEach fs gs with
      | isTrue h => isTrue (by rw [h])
      | isFalse h => isFalse (by simpa using h)
    | disj fs, disj gs =>
      match decEqEach fs gs with
      | isTrue h => isTrue (by rw [h])
      | isFalse h => isFalse (by simpa using h)
    | imp a b, imp c d =>
      match decEqTree a c with
      | isFalse h => isFalse (by simp [h])
      | isTrue h =>
        match decEqTree b d with
        | isTrue k => isTrue (by rw [h, k])
        | isFalse k => isFalse (by simp [k])
    | iff a b, iff c d =>
      match decEqTree a c with
      | isFalse h => isFalse (by simp [h])
      | isTrue h =>
        match decEqTree b d with
        | isTrue k => isTrue (by rw [h, k])
        | isFalse k => isFalse (by simp [k])
    | var _, neg _ | var _, conj _ | var _, disj _ | var _, imp _ _ | var _, iff _ _
    | neg _, var _ | neg _, conj _ | neg _, disj _ | neg _, imp _ _ | neg _, iff _ _
    | conj _, var _ | conj _, neg _ | conj _, disj _ | conj _, imp _ _ | conj _, iff _ _
    | disj _, var _ | disj _, neg _ | disj _, conj _ | disj _, imp _ _ | disj _, iff _ _
    | imp _ _, var _ | imp _ _, neg _ | imp _ _, conj _ | imp _ _, disj _ | imp _ _, iff _ _
    | iff _ _, var _ | iff _ _, neg _ | iff _ _, conj _ | iff _ _, disj _ | iff _ _, imp _ _ =>
      isFalse nofun

/-- Equality of lists of formulas, position by position. -/
def decEqEach : (fs gs : List Formula) → Decidable (fs = gs)
  | [], [] => isTrue rfl
  | [], _ :: _ => isFalse nofun
  | _ :: _, [] => isFalse nofun
  | f :: fs, g :: gs =>
    match decEqTree f g with
    | isFalse h => isFalse (by simp [h])
    | isTrue h =>
      match decEqEach fs gs with
      | isTrue k => isTrue (by rw [h, k])
      | isFalse k => isFalse (by simp [k])

end

/-- Equality of the two formulas of a pair. -/
def decEqPair (pair : Formula × Formula) : Decidable (pair.1 = pair.2) :=
  decEqTree pair.1 pair.2

/-- Equality of formulas. Before a look at the subformulas, all equal ones are made the same object
in memory. Only those that differ are then looked into, so that one path from the root down to the
first difference is followed, however often a subformula occurs. -/
def decEq (f g : Formula) : Decidable (f = g) :=
  decideFast f g fun _ => decEqPair (ShareCommon.shareCommon' (f, g))

instance : DecidableEq Formula := decEq

end Formula

end Clausal
