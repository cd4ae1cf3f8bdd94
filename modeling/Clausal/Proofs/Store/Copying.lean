import Clausal.Proofs.Store.Change
import Clausal.Store.Copy
import Mathlib.Data.Option.Basic

namespace Clausal.Store

/-- The copies that a table lists stand at places that were not used before, each clause has another one,
and a copy has the literals that its clause had. Theories are as they were. -/
structure Copies (before store : Store) (copies : Table ClauseId ClauseId) : Prop where
  extended : store.Extends before
  theories : store.theories = before.theories
  fresh : ∀ c copy, copies.get? c = some copy →
    before.clauses.size ≤ copy.index ∧ copy.index < store.clauses.size
  clause : ∀ c copy, copies.get? c = some copy → store.clause copy = before.clause c
  one : ∀ c d copy, copies.get? c = some copy → copies.get? d = some copy → c = d

theorem copies_empty (store : Store) : Copies store store ⟨[]⟩ :=
  ⟨.refl store, rfl, nofun, nofun, nofun⟩

variable {before store : Store} {copies : Table ClauseId ClauseId}

/-- Copies that were made before stay, so that a clause that is met again has the same copy. -/
theorem Copies.copyOnce (tracked : Copies before store copies) {c : ClauseId}
    (used : c.index < before.clauses.size) :
    let result := store.copyOnce copies c
    Copies before result.2.2 result.2.1 ∧ result.2.1.get? c = some result.1 ∧
      ∀ d copy, copies.get? d = some copy → result.2.1.get? d = some copy := by
  intro result
  cases met : copies.get? c with
  | some copy =>
    have found : result = (copy, copies, store) := by simp only [result, Store.copyOnce, met]
    rw [found]
    exact ⟨tracked, met, fun _ _ listed => listed⟩
  | none =>
    let copy : ClauseId := ⟨store.clauses.size⟩
    let after := (store.newClause (store.clause c)).2
    have made : result = (copy, copies.insert c copy, after) := by
      simp only [result, Store.copyOnce, met]
      rfl
    have size : after.clauses.size = store.clauses.size + 1 := Array.size_push _
    have extended := extends_newClause store (store.clause c)
    -- what the new table lists is the new copy or was listed before
    have entry (d e : ClauseId) (listed : (copies.insert c copy).get? d = some e) :
        d = c ∧ e = copy ∨ copies.get? d = some e := by
      rw [Table.get?_insert] at listed
      split at listed
      · rename_i same
        exact .inl ⟨same, (Option.some.inj listed).symm⟩
      · exact .inr listed
    have apart (d : ClauseId) : copies.get? d ≠ some copy := fun listed =>
      Nat.lt_irrefl _ (tracked.fresh d copy listed).2
    rw [made]
    refine ⟨⟨extended.trans tracked.extended, tracked.theories, fun d e listed => ?_, fun d e listed => ?_,
      fun d d' e listed listed' => ?_⟩, ?_, fun d e listed => ?_⟩
    · rcases entry d e listed with ⟨_, rfl⟩ | old
      · exact ⟨tracked.extended.clauses_size, size ▸ Nat.lt_succ_self _⟩
      · obtain ⟨new, inside⟩ := tracked.fresh d e old
        exact ⟨new, Nat.lt_of_lt_of_le inside extended.clauses_size⟩
    · rcases entry d e listed with ⟨rfl, rfl⟩ | old
      · exact (clause_newClause store _).trans (tracked.extended.clause d used)
      · exact (extended.clause e (tracked.fresh d e old).2).trans (tracked.clause d e old)
    · rcases entry d e listed with ⟨rfl, rfl⟩ | old <;> rcases entry d' _ listed' with ⟨rfl, same⟩ | old'
      · rfl
      · exact absurd old' (apart d')
      · exact absurd (same ▸ old) (apart d)
      · exact tracked.one d d' e old old'
    · rw [Table.get?_insert, if_pos rfl]
    · have other : d ≠ c := fun same => by simp [same, met] at listed
      rw [Table.get?_insert, if_neg other, listed]

/-- In the end the table lists a copy of every clause, and the copies come in the order of the clauses. -/
theorem Copies.copyClauses {cs : List ClauseId} (used : ∀ c ∈ cs, c.index < before.clauses.size)
    (tracked : Copies before store copies) :
    let result := Store.copyClauses cs copies store
    Copies before result.2.2 result.2.1 ∧ cs.map result.2.1.get? = result.1.map some ∧
      ∀ d copy, copies.get? d = some copy → result.2.1.get? d = some copy := by
  induction cs generalizing copies store with
  | nil => exact ⟨tracked, rfl, fun _ _ listed => listed⟩
  | cons c cs ih =>
    obtain ⟨first, listed, kept⟩ := tracked.copyOnce (used c List.mem_cons_self)
    obtain ⟨rest, copied, later⟩ := ih (fun d member => used d (.tail c member)) first
    refine ⟨rest, ?_, fun d copy old => later d copy (kept d copy old)⟩
    rw [Store.copyClauses, List.map_cons, List.map_cons, later c _ listed, copied]

/-- Copies listed for some clauses, in order, say what the clauses said. -/
theorem Copies.map_clause (tracked : Copies before store copies) {cs listed : List ClauseId}
    (copied : cs.map copies.get? = listed.map some) :
    listed.map store.clause = cs.map before.clause := by
  induction cs generalizing listed with
  | nil =>
    cases listed with
    | nil => rfl
    | cons copy rest => cases copied
  | cons c cs ih =>
    cases listed with
    | nil => cases copied
    | cons copy rest =>
      obtain ⟨first, others⟩ := List.cons.inj copied
      rw [List.map_cons, List.map_cons, tracked.clause c copy first, ih others]

/-- Between two stores a theory was copied. The copy is a new theory of new clauses, which agrees with the
first one, also in which positions share a clause. -/
structure Duplicated (before after : Store) (t copy : TheoryId) : Prop where
  extended : after.Extends before
  new : copy = ⟨before.theories.size⟩
  size : after.theories.size = before.theories.size + 1
  inUse : after.InUse copy
  theory : after.theory copy = before.theory t
  fresh : ∀ c ∈ after.held copy, before.clauses.size ≤ c.index
  shares : ∀ i j : Nat, (after.held copy)[i]? = (after.held copy)[j]? ↔
    (before.held t)[i]? = (before.held t)[j]?

/-- A map that sends no two elements to one value tells apart the positions that the list tells apart. -/
theorem getElem?_eq_iff_of_map {α β : Type} {as : List α} {bs : List β} {f : α → Option β}
    (mapped : as.map f = bs.map some) (one : ∀ a a' b, f a = some b → f a' = some b → a = a') (i j : Nat) :
    bs[i]? = bs[j]? ↔ as[i]? = as[j]? := by
  have each (k : Nat) : as[k]?.map f = bs[k]?.map some := by
    rw [← List.getElem?_map, mapped, List.getElem?_map]
  constructor
  · intro same
    have both : as[i]?.map f = as[j]?.map f := by rw [each, each, same]
    cases left : as[i]? with
    | none =>
      rw [left] at both
      exact (Option.map_eq_none_iff.mp both.symm).symm
    | some a =>
      have value := each i
      rw [left] at both value
      obtain ⟨a', right, same⟩ := Option.map_eq_some_iff.mp both.symm
      obtain ⟨b, -, value⟩ := Option.map_eq_some_iff.mp value.symm
      rw [right, one a a' b value.symm (same.trans value.symm)]
  · intro same
    have both : bs[i]?.map some = bs[j]?.map some := by rw [← each, ← each, same]
    exact Option.map_injective (Option.some_injective β) both

theorem copyTheory_duplicated {store : Store} {t : TheoryId} (used : store.InUse t) :
    Duplicated store (store.copyTheory ⟨[]⟩ t).2.2 t (store.copyTheory ⟨[]⟩ t).1 := by
  obtain ⟨tracked, copied, -⟩ := (copies_empty store).copyClauses used.clause_lt
  let cs := (copyClauses (store.held t) ⟨[]⟩ store).1
  let copies := (copyClauses (store.held t) ⟨[]⟩ store).2.1
  let middle := (copyClauses (store.held t) ⟨[]⟩ store).2.2
  have made : store.copyTheory ⟨[]⟩ t = (⟨middle.theories.size⟩, copies, (middle.newTheory cs).2) := rfl
  have held : (middle.newTheory cs).2.held ⟨middle.theories.size⟩ = cs := held_newTheory middle cs
  have listed (c : ClauseId) (member : c ∈ cs) : ∃ d ∈ store.held t, copies.get? d = some c := by
    have image : some c ∈ (store.held t).map copies.get? := copied ▸ List.mem_map_of_mem member
    exact List.mem_map.mp image
  have theories : middle.theories.size = store.theories.size := congrArg Array.size tracked.theories
  rw [made]
  refine ⟨(extends_newTheory middle cs).trans tracked.extended, by rw [theories], ?_,
    ⟨?_, fun c member => ?_⟩, ?_, fun c member => ?_, ?_⟩
  · exact (Array.size_push _).trans (congrArg (· + 1) theories)
  · rw [newTheory, Array.size_push]
    exact Nat.lt_succ_self _
  · obtain ⟨d, -, entry⟩ := listed c (held ▸ member)
    exact (tracked.fresh d c entry).2
  · rw [Store.theory, held]
    exact congrArg Theory.mk (tracked.map_clause copied)
  · obtain ⟨d, -, entry⟩ := listed c (held ▸ member)
    exact (tracked.fresh d c entry).1
  · rw [held]
    exact getElem?_eq_iff_of_map copied tracked.one

/-- No other theory holds a clause of the copy, since each held only clauses that there were. -/
theorem Duplicated.apart {before after : Store} {t copy : TheoryId}
    (duplicated : Duplicated before after t copy)
    (sound : ∀ u : TheoryId, u.index < before.theories.size → before.InUse u) (u : TheoryId)
    (other : u ≠ copy) : ∀ c ∈ after.held u, c ∉ after.held copy := by
  intro c member copied
  by_cases old : u.index < before.theories.size
  · rw [duplicated.extended.held u old] at member
    exact Nat.not_lt.mpr (duplicated.fresh c copied) ((sound u old).clause_lt c member)
  · have index : u.index ≠ before.theories.size := fun same =>
      other (duplicated.new ▸ congrArg TheoryId.mk same)
    have unused : after.theories.size ≤ u.index := by
      rw [duplicated.size]
      omega
    rw [held_of_unused unused] at member
    exact absurd member List.not_mem_nil

/-- All that there was before the copy lies outside of what belongs to the copy and what comes later. -/
theorem Duplicated.extends_of_within {before after later : Store} {t copy : TheoryId}
    (duplicated : Duplicated before after t copy) (within : Within (after.own copy) after later) :
    later.Extends before := by
  have extended := duplicated.extended
  refine ⟨Nat.le_trans extended.clauses_size within.clauses_size,
    Nat.le_trans extended.theories_size within.theories_size, fun c old => ?_, fun u old => ?_⟩
  · have outside : ¬(after.own copy).clause c := by
      rintro (copied | new)
      · exact Nat.not_lt.mpr (duplicated.fresh c copied) old
      · exact Nat.not_lt.mpr (Nat.le_trans extended.clauses_size new) old
    rw [within.clause c outside, extended.clause c old]
  · have outside : ¬(after.own copy).theory u := by
      rintro (same | new)
      · rw [same, duplicated.new] at old
        exact Nat.lt_irrefl _ old
      · exact Nat.not_lt.mpr (Nat.le_trans extended.theories_size new) old
    rw [within.held u outside, extended.held u old]

end Clausal.Store
