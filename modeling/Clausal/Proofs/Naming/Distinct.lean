import Clausal.Proofs.Encoding.Correctness
import Clausal.Settings.Basic

namespace Clausal

open NameSource (numbered)

/-- A source of names, and the settings of the threads that share it. -/
structure SharedSource where
  settings : Settings := {}
  source : NameSource := {}

/-- What a thread can do that shares a source with others: draw names, convert a formula, or change
its settings. -/
inductive Activity where
  | draw (thread : ThreadId) (count : Nat)
  | convert (thread : ThreadId) (f : Formula)
  | configure (thread : ThreadId) (action : Settings.Action)

namespace Activity

def thread : Activity → ThreadId
  | draw thread _ => thread
  | convert thread _ => thread
  | configure thread _ => thread

/-- The names handed out, and what the threads share afterwards. -/
def perform : Activity → SharedSource → List String × SharedSource
  | draw thread count, shared =>
    let (names, source) := shared.source.drawMany (shared.settings.stem thread) count
    (names, { shared with source })
  | convert thread f, shared =>
    match f.convert shared.source (shared.settings.stem thread) (shared.settings.check thread) with
    | .ok conversion =>
      (conversion.drawnNames (shared.settings.stem thread), { shared with source := conversion.after })
    | .error _ => ([], shared)
  | configure thread action, shared =>
    ([], { shared with settings := (shared.settings.perform thread action).2 })

/-- The stem in force at each name handed out. -/
def stems (activity : Activity) (shared : SharedSource) : List String :=
  List.replicate (activity.perform shared).1.length
    (shared.source.stem (shared.settings.stem activity.thread))

def performAll : List Activity → SharedSource → List String × SharedSource
  | [], shared => ([], shared)
  | activity :: activities, shared =>
    let (names, shared) := activity.perform shared
    let (more, shared) := performAll activities shared
    (names ++ more, shared)

def stemsAll : List Activity → SharedSource → List String
  | [], _ => []
  | activity :: activities, shared =>
    activity.stems shared ++ stemsAll activities (activity.perform shared).2

/-- Whatever a thread does comes to a number of draws under the stem in force for it. -/
theorem perform_eq_drawMany (activity : Activity) (shared : SharedSource) : ∃ count,
    (activity.perform shared).1 =
        (shared.source.drawMany (shared.settings.stem activity.thread) count).1 ∧
      (activity.perform shared).2.source =
        (shared.source.drawMany (shared.settings.stem activity.thread) count).2 := by
  cases activity with
  | draw thread count => exact ⟨count, rfl, rfl⟩
  | configure thread action => exact ⟨0, rfl, rfl⟩
  | convert thread f =>
    cases result : f.convert shared.source (shared.settings.stem thread) (shared.settings.check thread) with
    | error fault =>
      refine ⟨0, ?_, ?_⟩
      · rw [perform, result]
        rfl
      · rw [perform, result]
        rfl
    | ok conversion =>
      have same := Formula.eq_conversion f shared.source (shared.settings.stem thread) result
      refine ⟨f.composites.length, ?_, ?_⟩
      · rw [perform, result, same]
        have drawn := Formula.drawn_conversion f shared.source (shared.settings.stem thread)
        change (shared.source.drawMany _ (f.conversion _ _).drawn).1 = _
        rw [drawn]
        rfl
      · rw [perform, result, same]
        exact (NameSource.drawMany_after _ _ _).symm

theorem perform_names (activity : Activity) (shared : SharedSource) :
    (activity.perform shared).1 =
      (activity.stems shared).mapIdx fun i stem => numbered stem (shared.source.count + i + 1) := by
  obtain ⟨count, names, _⟩ := perform_eq_drawMany activity shared
  rw [stems, names, NameSource.drawMany_names, List.length_mapIdx, List.length_replicate]

/-- The count tells how many names the source has handed out; its own stem never changes. -/
theorem perform_source (activity : Activity) (shared : SharedSource) :
    (activity.perform shared).2.source =
      { shared.source with count := shared.source.count + (activity.stems shared).length } := by
  obtain ⟨count, names, after⟩ := perform_eq_drawMany activity shared
  rw [after, NameSource.drawMany_after, stems, names, NameSource.drawMany_names, List.length_mapIdx,
    List.length_replicate, List.length_replicate]

/-- A run hands out one number after the other, each under the stem in force at that moment. -/
theorem performAll_names (activities : List Activity) (shared : SharedSource) :
    (performAll activities shared).1 =
      (stemsAll activities shared).mapIdx fun i stem => numbered stem (shared.source.count + i + 1) := by
  induction activities generalizing shared with
  | nil => rfl
  | cons activity activities ih =>
    have first := perform_names activity shared
    have rest := ih (activity.perform shared).2
    rw [performAll, stemsAll, List.mapIdx_append]
    change (activity.perform shared).1 ++ (performAll activities (activity.perform shared).2).1 = _
    have count : (activity.perform shared).2.source.count =
        shared.source.count + (activity.stems shared).length := by rw [perform_source]
    rw [first, rest, count]
    congr 2
    funext i stem
    congr 1
    omega

theorem stemsAll_of_fixed {stem : String} (activities : List Activity) (shared : SharedSource)
    (own : shared.source.fixed = some stem) : ∀ other ∈ stemsAll activities shared, other = stem := by
  induction activities generalizing shared with
  | nil => exact fun other member => absurd member List.not_mem_nil
  | cons activity activities ih =>
    have kept : (activity.perform shared).2.source.fixed = some stem := by
      rw [perform_source]
      exact own
    intro other member
    rcases List.mem_append.mp member with now | later
    · have inForce := List.eq_of_mem_replicate now
      rw [inForce, NameSource.stem, own, Option.getD_some]
    · exact ih (activity.perform shared).2 kept other later

theorem nodup_numbered_iff (stems : List String) (k : Nat) :
    (stems.mapIdx fun i stem => numbered stem (k + i + 1)).Nodup ↔
      ¬∃ i j stem later d, i < j ∧ stems[i]? = some stem ∧ stems[j]? = some later ∧ 1 ≤ d ∧
        stem = numbered later d ∧ k + j + 1 = d * 10 ^ (toString (k + i + 1)).length + (k + i + 1) := by
  rw [List.Nodup, List.pairwise_iff_getElem]
  constructor
  · intro distinct repeated
    obtain ⟨i, j, stem, later, d, less, atI, atJ, positive, continued, sum⟩ := repeated
    obtain ⟨inI, rfl⟩ := List.getElem?_eq_some_iff.mp atI
    obtain ⟨inJ, rfl⟩ := List.getElem?_eq_some_iff.mp atJ
    have numbers : k + i + 1 < k + j + 1 := by omega
    refine distinct i j (by simpa using inI) (by simpa using inJ) less ?_
    rw [List.getElem_mapIdx, List.getElem_mapIdx]
    exact (NameSource.numbered_eq_iff numbers).mpr ⟨d, positive, continued, sum⟩
  · intro none i j inI inJ less same
    rw [List.length_mapIdx] at inI inJ
    rw [List.getElem_mapIdx, List.getElem_mapIdx] at same
    have numbers : k + i + 1 < k + j + 1 := by omega
    obtain ⟨d, positive, continued, sum⟩ := (NameSource.numbered_eq_iff numbers).mp same
    exact none ⟨i, j, stems[i], stems[j], d, less, List.getElem?_eq_getElem inI, List.getElem?_eq_getElem inJ,
      positive, continued, sum⟩

/-- When the names that a source hands out are distinct. Two of them are the same exactly if the
stem at the earlier one is the stem at the later one with a numeral, and the number at the later one
has the digits of this numeral before those of the earlier number. So names never repeat under an
unchanged stem, nor if no stem in force ends in a digit. -/
theorem nodup_performAll_iff (activities : List Activity) (shared : SharedSource) :
    ((performAll activities shared).1.Nodup ↔
      ¬∃ i j stem later d, i < j ∧ (stemsAll activities shared)[i]? = some stem ∧
        (stemsAll activities shared)[j]? = some later ∧ 1 ≤ d ∧ stem = numbered later d ∧
        shared.source.count + j + 1 =
          d * 10 ^ (toString (shared.source.count + i + 1)).length + (shared.source.count + i + 1)) ∧
    (∀ own, shared.source.fixed = some own → (performAll activities shared).1.Nodup) ∧
    ((∀ stem ∈ stemsAll activities shared, ∀ other ∈ stemsAll activities shared, stem = other) →
      (performAll activities shared).1.Nodup) ∧
    ((∀ stem ∈ stemsAll activities shared, ∀ c ∈ stem.toList.getLast?, c.isDigit = false) →
      (performAll activities shared).1.Nodup) := by
  rw [performAll_names, nodup_numbered_iff]
  refine ⟨Iff.rfl, ?_, ?_, ?_⟩
  · intro own atStart repeated
    obtain ⟨i, j, stem, later, d, _, atI, atJ, _, continued, _⟩ := repeated
    have first := stemsAll_of_fixed activities shared atStart stem (List.mem_of_getElem? atI)
    have second := stemsAll_of_fixed activities shared atStart later (List.mem_of_getElem? atJ)
    rw [first, second] at continued
    exact NameSource.ne_numbered_self own d continued
  · intro unchanged repeated
    obtain ⟨i, j, stem, later, d, _, atI, atJ, _, continued, _⟩ := repeated
    have same := unchanged stem (List.mem_of_getElem? atI) later (List.mem_of_getElem? atJ)
    rw [same] at continued
    exact NameSource.ne_numbered_self later d continued
  · intro plain repeated
    obtain ⟨i, j, stem, later, d, _, atI, _, _, continued, _⟩ := repeated
    obtain ⟨c, last, digit⟩ := NameSource.getLast?_numbered later d
    rw [← continued] at last
    have none := plain stem (List.mem_of_getElem? atI) c last
    rw [digit] at none
    cases none

/-- A source of names without a stem of its own hands out `_x11` as its first name under the stem
`_x1` and again as its eleventh under `_x`. -/
theorem not_nodup_after_stem_change :
    let run := [configure ⟨0⟩ (.assign "aux_prefix" (.text "_x1")), draw ⟨0⟩ 1,
      configure ⟨0⟩ (.assign "aux_prefix" (.text "_x")), draw ⟨0⟩ 10]
    (performAll run {}).1 = ["_x11", "_x2", "_x3", "_x4", "_x5", "_x6", "_x7", "_x8", "_x9", "_x10", "_x11"] ∧
      ¬∀ activities shared, (performAll activities shared).1.Nodup := by
  intro run
  have names : (performAll run {}).1 =
      ["_x11", "_x2", "_x3", "_x4", "_x5", "_x6", "_x7", "_x8", "_x9", "_x10", "_x11"] := by decide +kernel
  refine ⟨names, fun distinct => ?_⟩
  have nodup := distinct run {}
  rw [names] at nodup
  revert nodup
  decide

end Activity

end Clausal
