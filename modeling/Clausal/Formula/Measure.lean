import Clausal.Formula.Fold

namespace Clausal.Formula

/-- One more than the greatest of the heights, and nought where there are none. -/
def heightAbove : List Nat → Nat
  | [] => 0
  | h :: hs => 1 + hs.foldl max h

/-- The number of steps to the furthest leaf, computed once for each distinct subformula. -/
def height (f : Formula) : Nat :=
  match f.foldShared (ε := Empty) (fun _ => .ok 0) (fun _ hs => heightAbove hs) with
  | .ok h => h

mutual

/-- The number of nodes of the tree, every occurrence counted. -/
def occurrences : Formula → Nat
  | var _ => 1
  | neg sub => 1 + sub.occurrences
  | conj subs => 1 + occurrencesAll subs
  | disj subs => 1 + occurrencesAll subs
  | imp left right => 1 + (left.occurrences + right.occurrences)
  | iff left right => 1 + (left.occurrences + right.occurrences)

def occurrencesAll : List Formula → Nat
  | [] => 0
  | f :: fs => f.occurrences + occurrencesAll fs

end

theorem occurrences_eq (f : Formula) : f.occurrences = 1 + occurrencesAll f.subs := by
  cases f <;> simp [occurrences, occurrencesAll, subs]

end Clausal.Formula
