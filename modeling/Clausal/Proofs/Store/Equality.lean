import Clausal.Proofs.Store.Change
import Clausal.Proofs.Theory.Equality

namespace Clausal.Store

variable {store : Store}

theorem theory_setHeld (store : Store) (t u : TheoryId) (cs : List ClauseId)
    (used : t.index < store.theories.size) :
    (store.setHeld t cs).theory u = if u = t then ⟨cs.map store.clause⟩ else store.theory u := by
  rw [theory, held_setHeld store t u cs used]
  split <;> rfl

theorem clause_addLiteral {c : ClauseId} (used : c.index < store.clauses.size) (d : ClauseId) (l : Literal) :
    (store.addLiteral c l).clause d = if d = c then (store.clause c).add l else store.clause d :=
  clause_setClause store c d _ used

theorem theory_addClause {t : TheoryId} (used : t.index < store.theories.size) (u : TheoryId) (c : ClauseId) :
    (store.addClause t c).theory u =
      if u = t then (store.theory t).add (store.clause c) else store.theory u := by
  rw [addClause, theory_setHeld store t u _ used, List.map_append]
  rfl

/-- The theories after the clauses of one of them have gone to the end of another. -/
def moved (theory : TheoryId → Theory) (t u v : TheoryId) : Theory :=
  if v = u then ⟨[]⟩ else if v = t then (theory t).append (theory u) else theory v

theorem merge_theory {t u : TheoryId} (apart : t ≠ u) (target : t.index < store.theories.size)
    (source : u.index < store.theories.size) :
    ∃ after, store.merge t u = .ok after ∧ after.theories.size = store.theories.size ∧
      after.theory = moved store.theory t u := by
  obtain ⟨after, merged, clauses, size, held⟩ := merge_spec apart target source
  have same : after.clause = store.clause := by
    funext c
    rw [Store.clause, Store.clause, clauses]
  refine ⟨after, merged, size, funext fun v => ?_⟩
  rw [theory, held, same, moved]
  split
  · rfl
  · split
    · rw [List.map_append]
      rfl
    · rfl

theorem same_addLiteral {c d : ClauseId} (first : c.index < store.clauses.size)
    (second : d.index < store.clauses.size) (alike : (store.clause c).same (store.clause d) = true)
    (l : Literal) :
    let after := (store.addLiteral c l).addLiteral d l
    (after.clause c).same (after.clause d) = true := by
  intro after
  by_cases one : c = d
  · exact one ▸ Clause.same_equivalence.refl _
  · have still : d.index < (store.addLiteral c l).clauses.size := by
      rwa [addLiteral, size_setClause]
    have left : after.clause c = (store.clause c).add l := by
      rw [clause_addLiteral still, if_neg one, clause_addLiteral first, if_pos rfl]
    have right : after.clause d = (store.clause d).add l := by
      rw [clause_addLiteral still, if_pos rfl, clause_addLiteral first, if_neg (Ne.symm one)]
    rw [left, right]
    exact Clause.same_add alike l

theorem same_addClause {t u : TheoryId} (first : t.index < store.theories.size)
    (second : u.index < store.theories.size) (alike : (store.theory t).same (store.theory u) = true)
    {c d : ClauseId} (added : (store.clause c).same (store.clause d) = true) :
    let after := (store.addClause t c).addClause u d
    (after.theory t).same (after.theory u) = true := by
  intro after
  by_cases one : t = u
  · exact one ▸ Theory.same_equivalence.refl _
  · have still : u.index < (store.addClause t c).theories.size := by
      rwa [addClause, size_setHeld]
    have left : after.theory t = (store.theory t).add (store.clause c) := by
      rw [theory_addClause still, if_neg one, theory_addClause first, if_pos rfl]
    have right : after.theory u = (store.theory u).add (store.clause d) := by
      rw [theory_addClause still, if_pos rfl, theory_addClause first, if_neg (Ne.symm one)]
      rfl
    rw [left, right]
    exact Theory.same_add alike added

section

variable {theory other : TheoryId → Theory} {t u t' u' : TheoryId}

theorem moved_source (theory : TheoryId → Theory) (t u : TheoryId) : moved theory t u u = ⟨[]⟩ :=
  if_pos rfl

theorem moved_target (theory : TheoryId → Theory) (apart : t ≠ u) :
    moved theory t u t = (theory t).append (theory u) := by
  rw [moved, if_neg apart, if_pos rfl]

theorem moved_other {v : TheoryId} (not_source : v ≠ u) (not_target : v ≠ t) :
    moved theory t u v = theory v := by
  rw [moved, if_neg not_source, if_neg not_target]

theorem moved_of_empty (empty : (theory u).clauses = []) : moved theory t u = theory := by
  have nothing : theory u = ⟨[]⟩ := congrArg Theory.mk empty
  funext v
  rw [moved]
  split
  · rename_i source
    rw [source, nothing]
  · split
    · rename_i target
      rw [target, nothing, Theory.append, List.append_nil]
    · rfl

theorem length_moved (theory : TheoryId → Theory) (t u v : TheoryId) :
    (moved theory t u v).clauses.length =
      if v = u then 0
      else if v = t then (theory t).clauses.length + (theory u).clauses.length
      else (theory v).clauses.length := by
  rw [moved]
  split
  · rfl
  · split
    · exact List.length_append
    · rfl

theorem same_moved (apart : t ≠ u) (apart' : t' ≠ u') (targets : (theory t).same (other t') = true)
    (sources : (theory u).same (other u') = true) :
    (moved theory t u t).same (moved other t' u' t') = true ∧
      (moved theory t u u).same (moved other t' u' u') = true := by
  rw [moved_target theory apart, moved_target other apart', moved_source, moved_source]
  exact ⟨Theory.same_append targets sources, rfl⟩

section

variable (apart : t ≠ u) (apart' : t' ≠ u') (targets : (theory t).same (theory t') = true)
  (sources : (theory u).same (theory u') = true)

include sources

/-- Nothing moves where the sources are empty. -/
theorem moved_moved_of_empty (empty : (theory u).clauses = []) :
    moved (moved theory t u) t' u' = theory := by
  have length := Theory.length_congr sources
  have empty' : (theory u').clauses = [] := by
    rwa [empty, List.length_nil, eq_comm, List.length_eq_zero_iff] at length
  rw [moved_of_empty empty, moved_of_empty empty']

include apart apart' targets

/-- Two theories that get equal clauses one after the other are still equal, unless the first move changed
what the second finds: both have one source, or the second empties what the first filled, or it fills what
the first emptied. -/
theorem same_moved_moved_iff :
    let after := moved (moved theory t u) t' u'
    (after t).same (after t') = true ↔
      t = t' ∨ (theory u).clauses = [] ∨ u ≠ u' ∧ t ≠ u' ∧ t' ≠ u := by
  intro after
  constructor
  · intro alike
    by_cases one : t = t'
    · exact .inl one
    · by_cases empty : (theory u).clauses = []
      · exact .inr (.inl empty)
      · -- Wherever the moves meet, one of the targets is left longer than the other.
        have some := List.length_pos_iff.mpr empty
        have target := Theory.length_congr targets
        have source := Theory.length_congr sources
        have length := Theory.length_congr alike
        simp only [after, length_moved] at length
        refine .inr (.inr ⟨?_, ?_, ?_⟩) <;> rintro rfl <;> grind
  · rintro (rfl | empty | ⟨sources_apart, filled_apart, emptied_apart⟩)
    · exact Theory.same_equivalence.refl _
    · have kept : after = theory := moved_moved_of_empty sources empty
      rwa [kept]
    · by_cases one : t = t'
      · exact one ▸ Theory.same_equivalence.refl _
      · have left : after t = (theory t).append (theory u) := by
          have first : after t = moved theory t u t := moved_other filled_apart one
          rw [first, moved_target theory apart]
        have right : after t' = (theory t').append (theory u') := by
          have second : after t' = (moved theory t u t').append (moved theory t u u') :=
            moved_target _ apart'
          rw [second, moved_other emptied_apart (Ne.symm one),
            moved_other sources_apart.symm filled_apart.symm]
        rw [left, right]
        exact Theory.same_append targets sources

/-- The source of the first move is empty like that of the second, unless the second filled it again. -/
theorem same_moved_moved_sources_iff :
    let after := moved (moved theory t u) t' u'
    (after u).same (after u') = true ↔ t' ≠ u ∨ (theory u).clauses = [] := by
  intro after
  constructor
  · intro alike
    by_cases empty : (theory u).clauses = []
    · exact .inr empty
    · left
      have some := List.length_pos_iff.mpr empty
      have target := Theory.length_congr targets
      have source := Theory.length_congr sources
      have length := Theory.length_congr alike
      simp only [after, length_moved] at length
      rintro rfl
      grind
  · rintro (kept | empty)
    · have emptied : after u' = ⟨[]⟩ := moved_source _ t' u'
      by_cases one : u = u'
      · exact one ▸ Theory.same_equivalence.refl _
      · have first : after u = moved theory t u u := moved_other one kept.symm
        rw [emptied, first, moved_source]
        rfl
    · have kept : after = theory := moved_moved_of_empty sources empty
      rwa [kept]

end

end

/-- Merges in two stores, which may be one store before and after a change. -/
theorem same_merge {other : Store} {t u t' u' : TheoryId} (apart : t ≠ u) (apart' : t' ≠ u')
    (target : t.index < store.theories.size) (source : u.index < store.theories.size)
    (target' : t'.index < other.theories.size) (source' : u'.index < other.theories.size)
    (targets : (store.theory t).same (other.theory t') = true)
    (sources : (store.theory u).same (other.theory u') = true) :
    ∃ after after', store.merge t u = .ok after ∧ other.merge t' u' = .ok after' ∧
      (after.theory t).same (after'.theory t') = true ∧ (after.theory u).same (after'.theory u') = true := by
  obtain ⟨after, merged, -, theories⟩ := merge_theory apart target source
  obtain ⟨after', merged', -, theories'⟩ := merge_theory apart' target' source'
  refine ⟨after, after', merged, merged', ?_⟩
  rw [theories, theories']
  exact same_moved apart apart' targets sources

/-- Two merges in turn, whichever of the theories are one and the same. -/
theorem same_merge_merge {t u t' u' : TheoryId} (apart : t ≠ u) (apart' : t' ≠ u')
    (target : t.index < store.theories.size) (source : u.index < store.theories.size)
    (target' : t'.index < store.theories.size) (source' : u'.index < store.theories.size)
    (targets : (store.theory t).same (store.theory t') = true)
    (sources : (store.theory u).same (store.theory u') = true) :
    ∃ middle after, store.merge t u = .ok middle ∧ middle.merge t' u' = .ok after ∧
      ((after.theory t).same (after.theory t') = true ↔
        t = t' ∨ (store.theory u).clauses = [] ∨ u ≠ u' ∧ t ≠ u' ∧ t' ≠ u) ∧
      ((after.theory u).same (after.theory u') = true ↔ t' ≠ u ∨ (store.theory u).clauses = []) := by
  obtain ⟨middle, merged, size, theories⟩ := merge_theory apart target source
  obtain ⟨after, merged', -, theories'⟩ := merge_theory apart' (size ▸ target') (size ▸ source')
  refine ⟨middle, after, merged, merged', ?_⟩
  rw [theories', theories]
  exact ⟨same_moved_moved_iff apart apart' targets sources,
    same_moved_moved_sources_iff apart apart' targets sources⟩

/-- Clauses are equal if their literals are the same up to order, and theories if their clauses are equal
position by position. Both are equivalences, what a clause or a theory says in a model depends on it up to
equality only, and equal ones stay equal under equal additions. So do theories under merges of equal
theories, each in a store of its own. In one store a merge leaves its source empty: where equal theories are
merged into equal theories one after the other, those merged into are still equal exactly if they are one
theory, or there was nothing to merge, or the second merge has neither the source of the first, nor its
target as a source, nor its source as a target. -/
theorem same_congruence :
    (∀ c d : Clause, c.same d = true ↔ c.literals.Perm d.literals) ∧
    (∀ t u : Theory, t.same u = true ↔ t.clauses.length = u.clauses.length ∧
      ∀ (i : Nat) (c d : Clause), t.clauses[i]? = some c → u.clauses[i]? = some d → c.same d = true) ∧
    Equivalence (fun c d : Clause => c.same d = true) ∧ Equivalence (fun t u : Theory => t.same u = true) ∧
    (∀ c d : Clause, c.same d = true →
      c.literals.length = d.literals.length ∧ c.isUnit = d.isUnit ∧ c.names = d.names ∧
      ∀ model : Model, (∀ name ∈ c.names, name ∈ model.keys) →
        ∃ b, c.evaluate model = .ok b ∧ d.evaluate model = .ok b) ∧
    (∀ t u : Theory, t.same u = true → t.names = u.names ∧
      ∀ model : Model, (∀ name ∈ t.names, name ∈ model.keys) →
        ∃ b, t.evaluate model = .ok b ∧ u.evaluate model = .ok b) ∧
    ∀ store : Store,
      (∀ c d : ClauseId, c.index < store.clauses.size → d.index < store.clauses.size →
        (store.clause c).same (store.clause d) = true → ∀ l m : Literal, (l == m) = true →
          let after := (store.addLiteral c l).addLiteral d m
          (after.clause c).same (after.clause d) = true) ∧
      (∀ t u : TheoryId, t.index < store.theories.size → u.index < store.theories.size →
        (store.theory t).same (store.theory u) = true →
        ∀ c d : ClauseId, (store.clause c).same (store.clause d) = true →
          let after := (store.addClause t c).addClause u d
          (after.theory t).same (after.theory u) = true) ∧
      ∀ t u : TheoryId, t ≠ u → t.index < store.theories.size → u.index < store.theories.size →
        (∀ (other : Store) (t' u' : TheoryId), t' ≠ u' → t'.index < other.theories.size →
          u'.index < other.theories.size → (store.theory t).same (other.theory t') = true →
          (store.theory u).same (other.theory u') = true →
          ∃ after after', store.merge t u = .ok after ∧ other.merge t' u' = .ok after' ∧
            (after.theory t).same (after'.theory t') = true ∧
            (after.theory u).same (after'.theory u') = true) ∧
        ∀ t' u' : TheoryId, t' ≠ u' → t'.index < store.theories.size → u'.index < store.theories.size →
          (store.theory t).same (store.theory t') = true → (store.theory u).same (store.theory u') = true →
          ∃ middle after, store.merge t u = .ok middle ∧ middle.merge t' u' = .ok after ∧
            ((after.theory t).same (after.theory t') = true ↔
              t = t' ∨ (store.theory u).clauses = [] ∨ u ≠ u' ∧ t ≠ u' ∧ t' ≠ u) ∧
            ((after.theory u).same (after.theory u') = true ↔
              t' ≠ u ∨ (store.theory u).clauses = []) := by
  refine ⟨Clause.same_iff_perm, Theory.same_iff_get, Clause.same_equivalence, Theory.same_equivalence,
    fun c d alike => ?_, fun t u alike => ?_, fun store => ⟨?_, ?_, ?_⟩⟩
  · exact ⟨((c.same_iff_perm d).mp alike).length_eq, Clause.isUnit_congr alike, Clause.names_congr alike,
      fun model covered => Clause.evaluate_congr alike covered⟩
  · exact ⟨Theory.names_congr alike, fun model covered => Theory.evaluate_congr alike covered⟩
  · intro c d first second alike l m equal
    cases beq_iff_eq.mp equal
    exact same_addLiteral first second alike l
  · intro t u first second alike c d added
    exact same_addClause first second alike added
  · intro t u apart target source
    refine ⟨fun other t' u' apart' target' source' targets sources => ?_,
      fun t' u' apart' target' source' targets sources => ?_⟩
    · exact same_merge apart apart' target source target' source' targets sources
    · exact same_merge_merge apart apart' target source target' source' targets sources

/-- One clause is merged into one of two empty theories, and what is left, which is nothing, into the other. -/
theorem not_same_merge_of_shared_source :
    let store : Store := ⟨#[⟨[.pos "a"]⟩], #[[], [], [⟨0⟩]]⟩
    (store.theory ⟨0⟩).same (store.theory ⟨1⟩) = true ∧ (store.theory ⟨2⟩).same (store.theory ⟨2⟩) = true ∧
      ∃ middle after, store.merge ⟨0⟩ ⟨2⟩ = .ok middle ∧ middle.merge ⟨1⟩ ⟨2⟩ = .ok after ∧
        (after.theory ⟨0⟩).same (after.theory ⟨1⟩) = false :=
  ⟨by decide, by decide, _, _, rfl, rfl, by decide⟩

/-- Two pairs of theories whose clauses repeat a literal beside its opposite, in different orders. -/
theorem same_congruence_of_repetition :
    let store : Store :=
      ⟨#[⟨[.pos "a", .neg "a", .pos "a"]⟩, ⟨[.neg "a", .pos "a", .pos "a"]⟩, ⟨[]⟩],
        #[[⟨0⟩], [⟨1⟩], [⟨2⟩, ⟨0⟩], [⟨2⟩, ⟨1⟩]]⟩
    (store.clause ⟨0⟩).literals.Perm (store.clause ⟨1⟩).literals ∧
      ∃ middle after, store.merge ⟨0⟩ ⟨2⟩ = .ok middle ∧ middle.merge ⟨1⟩ ⟨3⟩ = .ok after ∧
        (after.theory ⟨0⟩).same (after.theory ⟨1⟩) = true ∧
        (after.theory ⟨2⟩).same (after.theory ⟨3⟩) = true := by
  intro store
  obtain ⟨perm, -, -, -, -, -, changes⟩ := same_congruence
  obtain ⟨-, -, merges⟩ := changes store
  obtain ⟨-, inTurn⟩ := merges ⟨0⟩ ⟨2⟩ (by decide) (by decide) (by decide)
  obtain ⟨middle, after, merged, merged', targets, sources⟩ :=
    inTurn ⟨1⟩ ⟨3⟩ (by decide) (by decide) (by decide) (by decide) (by decide)
  refine ⟨(perm _ _).mp (by decide), middle, after, merged, merged', targets.mpr ?_, sources.mpr ?_⟩
  · exact .inr (.inr (by decide))
  · exact .inl (by decide)

end Clausal.Store
