import Clausal.Proofs.Encoding.Translation
import Clausal.Proofs.Formula.Truth
import Clausal.Proofs.Store.Creation

namespace Clausal.Encoding

/-- What a conversion among the objects of a store changes: the source of names, and the store. -/
structure Building where
  source : NameSource
  store : Store

/-- A visit of a formula answers with the place of the theory that declares its name. -/
abbrev Visit := Building → Except Fault (TheoryId × Building)

/-- Takes the declaration off the theory at a place. -/
def strip (t : TheoryId) (b : Building) : Except Fault (String × Building) :=
  match b.store.takeDeclared t with
  | (.error fault, _) => .error fault
  | (.ok name, store) => .ok (name, { b with store })

/-- Visits in order, each followed by taking the declaration off what it answered with. -/
def stripEach : List Visit → Building → Except Fault (List String × Building)
  | [], b => .ok ([], b)
  | visit :: visits, b => do
    let (t, b) ← visit b
    let (part, b) ← strip t b
    let (parts, b) ← stripEach visits b
    return (part :: parts, b)

/-- A variable declares itself. -/
def visitLeaf (name : String) : Except Fault Visit :=
  .ok fun b => .ok ((b.store.declare name).1, { b with store := (b.store.declare name).2 })

/-- A node draws its name before the visits below it. Its defining clauses are added to the pool after
them. -/
def visitNode (ambient : String) (pool : TheoryId) (c : Connective) (visits : List Visit) : Visit :=
  fun b => do
    let (name, source) := b.source.draw ambient
    let (parts, b) ← stripEach visits { b with source }
    let clauses ← c.defining name parts
    let (t, store) := (b.store.addClauses pool clauses).declare name
    return (t, { b with store })

/-- The conversion as work on the objects of a store. All defining clauses are collected in one pool,
which is merged into the declaration of the formula in the end. -/
def convertIn (store : Store) (f : Formula) (source : NameSource) (ambient : String) (check : Bool) :
    Except Fault (TheoryId × Building) := do
  if check && !(f.clashes source ambient).isEmpty then
    throw (.clashes (f.clashes source ambient) (source.code ambient))
  let (pool, store) := store.newTheory []
  let visit ← f.fold visitLeaf (visitNode ambient pool)
  let (t, b) ← visit { source, store }
  let store ← b.store.merge t pool
  return (t, { b with store })

open Formula NameSource Store

/-- The source after some more draws. -/
def Building.drawn (b : Building) (count : Nat) (store : Store) : Building :=
  ⟨{ b.source with count := b.source.count + count }, store⟩

theorem Building.drawn_drawn (b : Building) (m n : Nat) (store later : Store) :
    (b.drawn m store).drawn n later = b.drawn (m + n) later := by
  simp only [drawn, Nat.add_assoc]

theorem strip_declare (b : Building) (count : Nat) (store : Store) (name : String) :
    ∃ after, strip (store.declare name).1 (b.drawn count (store.declare name).2) =
      .ok (name, b.drawn count after) ∧ after.Extends store := by
  obtain ⟨after, taken, -, extended⟩ := (made_addTheory store ⟨[.declaring name]⟩).takeDeclared
  refine ⟨after, ?_, extended⟩
  change (store.declare name).2.takeDeclared (store.declare name).1 = _ at taken
  simp only [strip, Building.drawn, taken]

theorem stripEach_cons {visit : Visit} {visits : List Visit} {first second third last : Building}
    {t : TheoryId} {part : String} {parts : List String} (visited : visit first = .ok (t, second))
    (taken : strip t second = .ok (part, third)) (visitedAll : stripEach visits third = .ok (parts, last)) :
    stripEach (visit :: visits) first = .ok (part :: parts, last) := by
  rw [stripEach, visited]
  change (strip t second >>= _) = _
  rw [taken]
  change (stripEach visits third >>= _) = _
  rw [visitedAll]
  rfl

theorem visitNode_eq_ok {ambient : String} {pool : TheoryId} {c : Connective} {visits : List Visit}
    {b : Building} {parts : List String} {count : Nat} {after : Store} {clauses : List Clause}
    (visited : stripEach visits (b.drawn 1 b.store) = .ok (parts, b.drawn count after))
    (defined : c.defining (numbered (b.source.stem ambient) (b.source.count + 1)) parts = .ok clauses) :
    let declared :=
      (after.addClauses pool clauses).declare (numbered (b.source.stem ambient) (b.source.count + 1))
    visitNode ambient pool c visits b = .ok (declared.1, b.drawn count declared.2) := by
  simp only [visitNode, draw_eq]
  change (stripEach visits (b.drawn 1 b.store) >>= _) = _
  rw [visited]
  change (c.defining (numbered (b.source.stem ambient) (b.source.count + 1)) parts >>= _) = _
  rw [defined]
  rfl

/-- A visit adds the clauses of the formula's gates to the pool and then declares the label. The
declaration is its last change, so taking it off again undoes nothing of what the pool has got. -/
theorem visit_spec (ambient : String) (pool : TheoryId) :
    (∀ f : Formula, ∃ visit,
      f.fold visitLeaf (visitNode ambient pool) = .ok visit ∧
      ∀ b : Building, pool.index < b.store.theories.size → ∃ middle,
        Grown pool b.store middle
          ((f.gates (b.source.stem ambient) b.source.count).flatMap Gate.clauses) ∧
        let declared := middle.declare (f.label (b.source.stem ambient) b.source.count)
        visit b = .ok (declared.1, b.drawn f.composites.length declared.2)) ∧
    ∀ fs : List Formula, ∃ visits,
      foldAll visitLeaf (visitNode ambient pool) fs = .ok visits ∧
      ∀ b : Building, pool.index < b.store.theories.size → ∃ after,
        Grown pool b.store after
          ((gatesAll (b.source.stem ambient) fs b.source.count).flatMap Gate.clauses) ∧
        stripEach visits b = .ok (labels (b.source.stem ambient) fs b.source.count,
          b.drawn (fs.flatMap composites).length after) := by
  refine forest_induction ?var ?node ?nil ?cons
  case var =>
    intro name
    refine ⟨_, by rw [fold]; rfl, fun b used => ⟨b.store, ?_, rfl⟩⟩
    exact (Extends.refl b.store).grown used
  case node =>
    intro c f root ih
    obtain ⟨visits, folded, spec⟩ := ih
    refine ⟨visitNode ambient pool c visits, by rw [fold_node _ _ root, folded]; rfl, fun b used => ?_⟩
    obtain ⟨after, grown, visited⟩ := spec (b.drawn 1 b.store) used
    have joins := connective_joins root
    rw [← length_labels (b.source.stem ambient) f.subs (b.source.count + 1)] at joins
    let gate : Gate := ⟨c, numbered (b.source.stem ambient) (b.source.count + 1),
      labels (b.source.stem ambient) f.subs (b.source.count + 1)⟩
    have defined : c.defining gate.name gate.parts = .ok gate.clauses := Gate.defining_eq_ok (g := gate) joins
    refine ⟨after.addClauses pool gate.clauses, ?_, ?_⟩
    · rw [gates_node root, List.flatMap_append, List.flatMap_singleton]
      exact grown.trans (addClauses_grown (Nat.lt_of_lt_of_le used grown.theories_size) gate.clauses)
    · rw [Building.drawn_drawn, Nat.add_comm 1] at visited
      rw [label_node root, composites_node root, List.length_cons]
      exact visitNode_eq_ok visited defined
  case nil =>
    exact ⟨[], rfl, fun b used => ⟨b.store, (Extends.refl b.store).grown used, rfl⟩⟩
  case cons =>
    intro f fs ihf ihs
    obtain ⟨visit, folded, spec⟩ := ihf
    obtain ⟨visits, foldedAll, specAll⟩ := ihs
    refine ⟨visit :: visits, by rw [foldAll, folded, foldedAll]; rfl, fun b used => ?_⟩
    obtain ⟨middle, grown, visited⟩ := spec b used
    obtain ⟨stripped, taken, extended⟩ := strip_declare b f.composites.length middle
      (f.label (b.source.stem ambient) b.source.count)
    have usedMiddle := Nat.lt_of_lt_of_le used grown.theories_size
    have usedStripped := Nat.lt_of_lt_of_le usedMiddle extended.theories_size
    obtain ⟨after, grownAll, visitedAll⟩ := specAll (b.drawn f.composites.length stripped) usedStripped
    refine ⟨after, ?_, ?_⟩
    · rw [gatesAll, List.flatMap_append]
      exact grown.trans ((extended.grown usedMiddle).trans grownAll)
    · rw [Building.drawn_drawn, ← List.length_append, ← List.flatMap_cons] at visitedAll
      exact stripEach_cons visited taken visitedAll

/-- The conversion among objects gives the theory that the conversion of values gives. All that was in
the store before stays as it was, and the theory is made of new clauses alone. -/
theorem convertIn_eq_ok {f : Formula} {source : NameSource} {ambient : String} {check : Bool}
    (accepted : check = true → f.clashes source ambient = []) (store : Store) :
    ∃ t after,
      convertIn store f source ambient check = .ok (t, ⟨(f.conversion source ambient).after, after⟩) ∧
        Made store after t (f.conversion source ambient).theory := by
  obtain ⟨visit, folded, spec⟩ := (visit_spec ambient ⟨store.theories.size⟩).1 f
  have used : store.theories.size < (store.newTheory []).2.theories.size := by
    rw [newTheory, Array.size_push]
    exact Nat.lt_succ_self _
  obtain ⟨middle, grown, visited⟩ := spec ⟨source, (store.newTheory []).2⟩ used
  obtain ⟨after, merged, made⟩ := merge_pool grown (f.label (source.stem ambient) source.count)
  refine ⟨_, after, ?_, made⟩
  rw [convertIn, if_neg (passed_check accepted)]
  change (f.fold visitLeaf (visitNode ambient ⟨store.theories.size⟩) >>= _) = _
  rw [folded]
  change (visit ⟨source, (store.newTheory []).2⟩ >>= _) = _
  rw [visited]
  change (Store.merge _ _ _ >>= _) = _
  simp only [Building.drawn, merged]
  rfl

end Clausal.Encoding
