import Clausal.Formula.Basic
import Std.Data.HashMap

namespace Clausal.Formula

variable {ε α : Type}

mutual

/-- The value of a formula computed from its leaves up. Every occurrence is computed on its own,
children from left to right, and the first fault ends the computation. -/
def fold (leaf : String → Except ε α) (join : Connective → List α → α) :
    Formula → Except ε α
  | var name => leaf name
  | neg sub => do
    let a ← sub.fold leaf join
    return join .neg [a]
  | conj subs => do
    let as ← foldAll leaf join subs
    return join .conj as
  | disj subs => do
    let as ← foldAll leaf join subs
    return join .disj as
  | imp left right => do
    let a ← left.fold leaf join
    let b ← right.fold leaf join
    return join .imp [a, b]
  | iff left right => do
    let a ← left.fold leaf join
    let b ← right.fold leaf join
    return join .iff [a, b]

def foldAll (leaf : String → Except ε α) (join : Connective → List α → α) :
    List Formula → Except ε (List α)
  | [] => return []
  | f :: fs => do
    let a ← f.fold leaf join
    let as ← foldAll leaf join fs
    return a :: as

end

/-- The values found so far. -/
abbrev Memo (α : Type) := Std.HashMap Formula α

/-- Looks a formula up, or computes its value and stores it. -/
def remember (f : Formula) (compute : Memo α → Except ε (α × Memo α)) (memo : Memo α) :
    Except ε (α × Memo α) :=
  match memo[f]? with
  | some a => return (a, memo)
  | none => do
    let (a, memo) ← compute memo
    return (a, memo.insert f a)

mutual

/-- The same value as `fold`, with every distinct subformula computed once. -/
def foldMemo (leaf : String → Except ε α) (join : Connective → List α → α) (f : Formula) :
    Memo α → Except ε (α × Memo α) :=
  remember f fun memo =>
    match f with
    | var name => do
      let a ← leaf name
      return (a, memo)
    | neg sub => do
      let (a, memo) ← sub.foldMemo leaf join memo
      return (join .neg [a], memo)
    | conj subs => do
      let (as, memo) ← foldMemoAll leaf join subs memo
      return (join .conj as, memo)
    | disj subs => do
      let (as, memo) ← foldMemoAll leaf join subs memo
      return (join .disj as, memo)
    | imp left right => do
      let (a, memo) ← left.foldMemo leaf join memo
      let (b, memo) ← right.foldMemo leaf join memo
      return (join .imp [a, b], memo)
    | iff left right => do
      let (a, memo) ← left.foldMemo leaf join memo
      let (b, memo) ← right.foldMemo leaf join memo
      return (join .iff [a, b], memo)

def foldMemoAll (leaf : String → Except ε α) (join : Connective → List α → α) :
    List Formula → Memo α → Except ε (List α × Memo α)
  | [], memo => return ([], memo)
  | f :: fs, memo => do
    let (a, memo) ← f.foldMemo leaf join memo
    let (as, memo) ← foldMemoAll leaf join fs memo
    return (a :: as, memo)

end

/-- The value of a formula, computed once for each distinct subformula. -/
def foldShared (leaf : String → Except ε α) (join : Connective → List α → α) (f : Formula) :
    Except ε α :=
  Prod.fst <$> f.foldMemo leaf join ∅

end Clausal.Formula
