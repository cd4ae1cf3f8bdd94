import Clausal.Proofs.Session.Conduct

namespace Clausal.Session

open Settings

/-- Whatever the order in which threads act, each gets the answers that it gets alone and ends as it
does alone, also where several of them have entered one scope. A thread that is started after them
runs as it does where nothing was ever set, and leaves the others alone. -/
theorem performAll_isolated (run : List (ThreadId × Action)) :
    (∀ thread,
      let alone := performAll (ofThread thread run) {}
      ofThread thread (performAll run {}).1 = alone.1 ∧
        SameFor thread alone.2 (performAll run {}).2) ∧
    ∀ session : Session, session.settings = (performAll run {}).2 →
      (∀ entry ∈ run, entry.1.index < session.threads) → ∀ (current : ThreadId) (body : List Step),
        let started := (Step.thread body).run current session
        let alone := (Step.thread body).run current { session with settings := {} }
        started.1 = alone.1 ∧ SameFor ⟨session.threads⟩ alone.2.settings started.2.settings ∧
          ∀ other, other.index < session.threads →
            SameFor other session.settings started.2.settings := by
  refine ⟨fun thread => (SameFor.refl thread {}).performAll run,
    fun session reached running current body => ?_⟩
  have untouched (thread : ThreadId) (new : session.threads ≤ thread.index) :
      SameFor thread {} session.settings := by
    rw [reached]
    refine sameFor_of_absent (fun entry member same => ?_) {}
    have early := running entry member
    rw [same] at early
    omega
  have child := Step.runAll_conduct ⟨session.threads⟩ body
  have alike : Alike ⟨session.threads⟩ { session with settings := {}, threads := session.threads + 1 }
      { session with threads := session.threads + 1 } := by
    refine ⟨rfl, rfl, fun thread seen => untouched thread ?_⟩
    rcases seen with rfl | later
    · exact Nat.le_refl _
    · exact Nat.le_of_succ_le later
  obtain ⟨replies, after⟩ := child.alike (Nat.lt_succ_self _) alike
  refine ⟨congrArg (Reply.body · false) replies, after.seen _ (.inl rfl), fun other early => ?_⟩
  have apart : other ≠ ⟨session.threads⟩ := fun same => by simp [same] at early
  exact (child.spares _ (Nat.lt_succ_self _)).others other apart (.inl (Nat.lt_succ_of_lt early))

/-- One thread has entered a scope, and another one enters it as well and gives up what the scope puts
in force. Then the first one starts a thread before it leaves the scope. -/
theorem performAll_isolated_of_shared_scope :
    let values := [("aux_prefix", Datum.text "_y")]
    let run : List (ThreadId × Action) :=
      [(⟨0⟩, .enter ⟨0⟩ values), (⟨1⟩, .read "aux_prefix"), (⟨1⟩, .enter ⟨0⟩ values),
        (⟨1⟩, .assign "aux_prefix" (.text "_z")), (⟨1⟩, .leave ⟨0⟩), (⟨1⟩, .read "aux_prefix")]
    let session : Session := { settings := (performAll run {}).2, threads := 2 }
    let started := (Step.thread [.assign "aux_prefix" (.text "_t")]).run ⟨0⟩ session
    ofThread ⟨1⟩ (performAll run {}).1 =
        [(⟨1⟩, .ok (.text "_x")), (⟨1⟩, .ok .null), (⟨1⟩, .ok .null), (⟨1⟩, .ok .null),
          (⟨1⟩, .ok (.text "_x"))] ∧
      started.1 = .body [.withSettings (.output (.datum .null)) (.text "_t") (.bool false)] false ∧
      started.2.settings.value ⟨0⟩ .stem = .text "_y" ∧
      started.2.settings.stack ⟨0⟩ ⟨0⟩ = [[(.stem, .text "_x")]] := by
  intro values run session started
  obtain ⟨apart, threads⟩ := performAll_isolated run
  have running : ∀ entry ∈ run, entry.1.index < session.threads := by decide
  obtain ⟨replies, -, others⟩ := threads session rfl running ⟨0⟩ [.assign "aux_prefix" (.text "_t")]
  have parent := others ⟨0⟩ Nat.zero_lt_two
  have alone := (apart ⟨0⟩).2
  exact ⟨(apart ⟨1⟩).1, replies, (parent.1 .stem).trans (alone.1 .stem),
    (parent.stack ⟨0⟩).trans (alone.stack ⟨0⟩)⟩

end Clausal.Session
