import Clausal.Formula.Fold

namespace Clausal.Formula

variable {ε α : Type} (leaf : String → Except ε α) (join : Connective → List α → α)

/-- Every value in the memo is the one that the fold gives. -/
def MemoSound (memo : Memo α) : Prop :=
  ∀ (f : Formula) (a : α), memo[f]? = some a → f.fold leaf join = .ok a

/-- A computation with a memo has the outcome of the plain one, and the memo it returns is sound. -/
def Agrees {β : Type} (plain : Except ε β) (result : Except ε (β × Memo α)) : Prop :=
  match result with
  | .ok (b, memo) => plain = .ok b ∧ MemoSound leaf join memo
  | .error e => plain = .error e

theorem MemoSound.insert {memo : Memo α} {f : Formula} {a : α} (sound : MemoSound leaf join memo)
    (value : f.fold leaf join = .ok a) : MemoSound leaf join (Std.HashMap.insert memo f a) := by
  intro g b found
  rw [Std.HashMap.getElem?_insert] at found
  by_cases same : f = g
  · subst same
    simp only [beq_self_eq_true, if_true, Option.some.injEq] at found
    rw [value, found]
  · simp only [beq_iff_eq, same, if_false] at found
    exact sound g b found

theorem Agrees.pure {β : Type} {memo : Memo α} (b : β) (sound : MemoSound leaf join memo) :
    Agrees leaf join (Pure.pure b) (Pure.pure (b, memo)) :=
  ⟨rfl, sound⟩

theorem Agrees.bind {β γ : Type} {plain : Except ε β} {result : Except ε (β × Memo α)}
    {next : β → Except ε γ} {nextMemo : β × Memo α → Except ε (γ × Memo α)}
    (first : Agrees leaf join plain result)
    (rest : ∀ b memo, MemoSound leaf join memo → Agrees leaf join (next b) (nextMemo (b, memo))) :
    Agrees leaf join (plain >>= next) (result >>= nextMemo) := by
  cases result with
  | error e =>
    simp only [Agrees] at first
    subst first
    rfl
  | ok result =>
    obtain ⟨rfl, sound⟩ := first
    exact rest result.1 result.2 sound

theorem remember_agrees {f : Formula} {compute : Memo α → Except ε (α × Memo α)} {memo : Memo α}
    (sound : MemoSound leaf join memo)
    (step : Agrees leaf join (f.fold leaf join) (compute memo)) :
    Agrees leaf join (f.fold leaf join) (remember f compute memo) := by
  unfold remember
  split
  next a found => exact ⟨sound f a found, sound⟩
  next missing =>
    cases done : compute memo with
    | error e =>
      rw [done] at step
      exact step
    | ok result =>
      rw [done] at step
      exact ⟨step.1, MemoSound.insert leaf join step.2 step.1⟩

mutual

theorem foldMemo_agrees (f : Formula) (memo : Memo α) (sound : MemoSound leaf join memo) :
    Agrees leaf join (f.fold leaf join) (f.foldMemo leaf join memo) := by
  rw [foldMemo]
  apply remember_agrees leaf join sound
  match f with
  | var name =>
    cases value : leaf name with
    | error e => simp [fold, value, Agrees, bind, Except.bind]
    | ok a => simpa [fold, value, Agrees, bind, Except.bind, pure, Except.pure] using sound
  | neg sub =>
    rw [fold]
    exact (foldMemo_agrees sub memo sound).bind _ _ fun a memo sound => .pure _ _ _ sound
  | conj subs =>
    rw [fold]
    exact (foldMemoAll_agrees subs memo sound).bind _ _ fun as memo sound => .pure _ _ _ sound
  | disj subs =>
    rw [fold]
    exact (foldMemoAll_agrees subs memo sound).bind _ _ fun as memo sound => .pure _ _ _ sound
  | imp left right =>
    rw [fold]
    exact (foldMemo_agrees left memo sound).bind _ _ fun a memo sound =>
      (foldMemo_agrees right memo sound).bind _ _ fun b memo sound => .pure _ _ _ sound
  | iff left right =>
    rw [fold]
    exact (foldMemo_agrees left memo sound).bind _ _ fun a memo sound =>
      (foldMemo_agrees right memo sound).bind _ _ fun b memo sound => .pure _ _ _ sound

theorem foldMemoAll_agrees (fs : List Formula) (memo : Memo α) (sound : MemoSound leaf join memo) :
    Agrees leaf join (foldAll leaf join fs) (foldMemoAll leaf join fs memo) := by
  match fs with
  | [] => exact ⟨rfl, sound⟩
  | f :: fs =>
    rw [foldAll, foldMemoAll]
    exact (foldMemo_agrees f memo sound).bind _ _ fun a memo sound =>
      (foldMemoAll_agrees fs memo sound).bind _ _ fun as memo sound => .pure _ _ _ sound

end

/-- The fold that computes each distinct subformula once has the outcome of the plain fold, also
where that is a fault. -/
theorem foldShared_eq_fold (f : Formula) : f.foldShared leaf join = f.fold leaf join := by
  have agrees := foldMemo_agrees leaf join f ∅ (by intro g a found; simp at found)
  unfold foldShared
  cases done : f.foldMemo leaf join ∅ with
  | error e =>
    rw [done] at agrees
    exact Eq.symm agrees
  | ok result =>
    rw [done] at agrees
    exact agrees.1.symm

end Clausal.Formula
