import Clausal.Proofs.Naming.Distinct
import Mathlib.Computability.RegularExpressions

namespace Clausal

namespace NameSource

/-- The pattern that a text alone matches. -/
def literally : List Char → RegularExpression Char
  | [] => 1
  | c :: cs => .char c * literally cs

/-- The pattern of one character out of some. -/
def oneOf : List Char → RegularExpression Char
  | [] => 0
  | c :: cs => .char c + oneOf cs

def digits : List Char :=
  ['0', '1', '2', '3', '4', '5', '6', '7', '8', '9']

/-- The pattern of the names under a stem: the stem, a digit other than nought, and any digits after it. -/
def pattern (stem : String) : RegularExpression Char :=
  literally stem.toList * (oneOf digits.tail * .star (oneOf digits))

theorem matches_literally_iff (cs text : List Char) : text ∈ (literally cs).matches' ↔ text = cs := by
  induction cs generalizing text with
  | nil => exact Language.mem_one text
  | cons c cs ih =>
    rw [literally, RegularExpression.matches'_mul, Language.mem_mul]
    constructor
    · intro parts
      obtain ⟨first, single, rest, others, rfl⟩ := parts
      rw [(ih rest).mp others, Set.mem_singleton_iff.mp single]
      rfl
    · rintro rfl
      exact ⟨[c], Set.mem_singleton _, cs, (ih cs).mpr rfl, rfl⟩

theorem matches_oneOf_iff (cs text : List Char) :
    text ∈ (oneOf cs).matches' ↔ ∃ c ∈ cs, text = [c] := by
  induction cs with
  | nil =>
    rw [oneOf, RegularExpression.matches'_zero]
    simp
  | cons c cs ih =>
    rw [oneOf, RegularExpression.matches'_add, Language.mem_add, ih, List.exists_mem_cons_iff]
    exact or_congr_left Set.mem_singleton_iff

theorem matches_star_oneOf_iff (cs text : List Char) :
    text ∈ (RegularExpression.star (oneOf cs)).matches' ↔ ∀ c ∈ text, c ∈ cs := by
  rw [RegularExpression.matches'_star, Language.mem_kstar]
  constructor
  · rintro ⟨parts, rfl, each⟩ c inside
    obtain ⟨part, member, atPart⟩ := List.mem_flatten.mp inside
    obtain ⟨d, listed, rfl⟩ := (matches_oneOf_iff cs part).mp (each part member)
    rwa [List.mem_singleton.mp atPart]
  · intro each
    refine ⟨text.map fun c => [c], ?_, fun part member => ?_⟩
    · rw [← List.flatMap_def, List.flatMap_singleton']
    obtain ⟨c, inside, rfl⟩ := List.mem_map.mp member
    exact (matches_oneOf_iff cs [c]).mpr ⟨c, each c inside, rfl⟩

theorem mem_digits_iff (c : Char) : c ∈ digits ↔ c.isDigit = true := by
  constructor
  · intro listed
    have each : digits.all Char.isDigit = true := by decide
    exact List.all_eq_true.mp each c listed
  · intro digit
    have bounds := Char.isDigit_iff_toNat.mp digit
    have high : c.toNat ≤ 57 := bounds.2
    have below : c.toNat - 48 < 10 := by omega
    have each : ∀ n, n < 10 → Nat.digitChar n ∈ digits := by decide
    exact digitChar_of_isDigit digit ▸ each _ below

theorem mem_digits_tail_iff (c : Char) : c ∈ digits.tail ↔ c ≠ '0' ∧ c.isDigit = true := by
  have distinct : '0' ∉ digits.tail := by decide
  have parts : c ∈ digits ↔ c = '0' ∨ c ∈ digits.tail := List.mem_cons
  rw [← mem_digits_iff, parts]
  exact ⟨fun inside => ⟨ne_of_mem_of_not_mem inside distinct, Or.inr inside⟩, fun both => both.2.resolve_left both.1⟩

theorem matches_numeral_iff (text : List Char) :
    text ∈ (oneOf digits.tail * .star (oneOf digits)).matches' ↔ isNumeral text = true := by
  rw [RegularExpression.matches'_mul, Language.mem_mul]
  constructor
  · intro parts
    obtain ⟨first, single, rest, others, rfl⟩ := parts
    obtain ⟨c, leading, rfl⟩ := (matches_oneOf_iff _ first).mp single
    obtain ⟨nonzero, digit⟩ := (mem_digits_tail_iff c).mp leading
    rw [List.singleton_append, isNumeral_cons]
    refine ⟨nonzero, fun d inside => ?_⟩
    rcases List.mem_cons.mp inside with rfl | later
    · exact digit
    · exact (mem_digits_iff d).mp ((matches_star_oneOf_iff digits rest).mp others d later)
  · intro numeral
    cases text with
    | nil => simp [isNumeral] at numeral
    | cons c cs =>
      obtain ⟨nonzero, each⟩ := (isNumeral_cons c cs).mp numeral
      have leading := (mem_digits_tail_iff c).mpr ⟨nonzero, each c List.mem_cons_self⟩
      refine ⟨[c], (matches_oneOf_iff _ [c]).mpr ⟨c, leading, rfl⟩, cs, ?_, rfl⟩
      exact (matches_star_oneOf_iff digits cs).mpr fun d later => (mem_digits_iff d).mpr (each d (.tail _ later))

/-- The recogniser takes the names that match the pattern as a whole. -/
theorem recognises_iff_matches (source : NameSource) (ambient name : String) :
    source.recognises ambient name = true ↔
      name.toList ∈ (pattern (source.stem ambient)).matches' := by
  rw [recognises, pattern, RegularExpression.matches'_mul, Language.mem_mul]
  constructor
  · intro recognised
    split at recognised
    · rename_i tail parts
      exact ⟨_, (matches_literally_iff _ _).mpr rfl, tail, (matches_numeral_iff tail).mpr recognised,
        ((rest?_eq_some_iff _ _ _).mp parts).symm⟩
    · simp at recognised
  · intro parts
    obtain ⟨first, stem, tail, numeral, whole⟩ := parts
    rw [(matches_literally_iff _ first).mp stem] at whole
    rw [(rest?_eq_some_iff _ _ tail).mpr whole.symm]
    exact (matches_numeral_iff tail).mp numeral

/-- A text after the stem is refused exactly if it is empty, begins with a nought, or holds a character
that is not one of the ten digits. -/
theorem recognises_append_eq_false_iff (source : NameSource) (ambient tail : String) :
    source.recognises ambient (source.stem ambient ++ tail) = false ↔
      tail = "" ∨ tail.toList.head? = some '0' ∨ ∃ c ∈ tail.toList, c < '0' ∨ '9' < c := by
  have whole : (source.stem ambient ++ tail).toList = (source.stem ambient).toList ++ tail.toList := by
    simp
  rw [recognises, (rest?_eq_some_iff _ _ _).mpr whole, ← String.toList_inj]
  cases tail.toList with
  | nil => simp [isNumeral]
  | cons c cs =>
    have outside (d : Char) : ¬('0' ≤ d ∧ d ≤ '9') ↔ d < '0' ∨ '9' < d := by
      rw [Decidable.not_and_iff_or_not, Char.not_le, Char.not_le]
    have refused : isNumeral (c :: cs) = false ↔ c = '0' ∨ ∃ d ∈ c :: cs, ¬('0' ≤ d ∧ d ≤ '9') := by
      simp only [isNumeral, Bool.and_eq_false_iff, bne_eq_false_iff_eq, List.all_eq_false,
        Bool.and_eq_true, decide_eq_true_eq]
    simp only [outside] at refused
    refine refused.trans ?_
    rw [List.head?_cons, Option.some.injEq]
    exact (or_iff_right (List.cons_ne_nil c cs)).symm

end NameSource

namespace Activity

open NameSource (numbered)

theorem performAll_fixed (activities : List Activity) (shared : SharedSource) :
    (performAll activities shared).2.source.fixed = shared.source.fixed := by
  induction activities generalizing shared with
  | nil => rfl
  | cons activity activities ih =>
    have first : (activity.perform shared).2.source.fixed = shared.source.fixed := by rw [perform_source]
    exact (ih (activity.perform shared).2).trans first

variable {activities : List Activity} {shared : SharedSource} {stem : String}

theorem nodup_performAll_of_unchanged (unchanged : ∀ other ∈ stemsAll activities shared, other = stem) :
    (performAll activities shared).1.Nodup := by
  rw [performAll_names, nodup_numbered_iff]
  intro repeated
  obtain ⟨i, j, first, later, d, _, atI, atJ, _, continued, _⟩ := repeated
  rw [unchanged first (List.mem_of_getElem? atI), unchanged later (List.mem_of_getElem? atJ)] at continued
  exact NameSource.ne_numbered_self stem d continued

theorem numbered_of_mem_performAll (unchanged : ∀ other ∈ stemsAll activities shared, other = stem)
    {name : String} (handed : name ∈ (performAll activities shared).1) :
    ∃ n, 1 ≤ n ∧ name = numbered stem n := by
  rw [performAll_names, List.mem_mapIdx] at handed
  obtain ⟨i, bound, rfl⟩ := handed
  exact ⟨shared.source.count + i + 1, by omega, by rw [unchanged _ (List.getElem_mem bound)]⟩

end Activity

namespace NameSource

/-- A source recognises exactly the names that it may issue. These are the names that match the pattern
as a whole, the stem with the numeral of a number from one on, and the names drawn at some count; the
number is unique. What is refused after the stem is the empty text, a leading nought, and any character
but the ten digits. So a run under one stem hands out distinct names, all of which the source recognises
when the run is over. -/
theorem recognises_exactly (source : NameSource) (ambient : String) :
    (∀ name, source.recognises ambient name = true ↔
      name.toList ∈ (pattern (source.stem ambient)).matches') ∧
    (∀ name, source.recognises ambient name = true ↔
      ∃! n : Nat, 1 ≤ n ∧ name = source.stem ambient ++ toString n) ∧
    (∀ name, source.recognises ambient name = true ↔
      ∃ count, (draw { source with count } ambient).1 = name) ∧
    (∀ tail, source.recognises ambient (source.stem ambient ++ tail) = false ↔
      tail = "" ∨ tail.toList.head? = some '0' ∨ ∃ c ∈ tail.toList, c < '0' ∨ '9' < c) ∧
    ∀ (activities : List Activity) (settings : Settings),
      (∀ stem ∈ Activity.stemsAll activities ⟨settings, source⟩, stem = source.stem ambient) →
        (Activity.performAll activities ⟨settings, source⟩).1.Nodup ∧
        ∀ name ∈ (Activity.performAll activities ⟨settings, source⟩).1,
          (Activity.performAll activities ⟨settings, source⟩).2.source.recognises ambient name = true := by
  refine ⟨recognises_iff_matches source ambient, fun name => ?_, fun name => ?_,
    recognises_append_eq_false_iff source ambient, fun activities settings unchanged => ⟨?_, ?_⟩⟩
  · rw [recognises_iff]
    constructor
    · intro numeral
      obtain ⟨n, positive, rfl⟩ := numeral
      exact ⟨n, ⟨positive, rfl⟩, fun m other => numbered_injective other.2.symm⟩
    · intro numeral
      obtain ⟨n, own, -⟩ := numeral
      exact ⟨n, own⟩
  · rw [recognises_iff]
    constructor
    · intro numeral
      obtain ⟨n, positive, rfl⟩ := numeral
      refine ⟨n - 1, ?_⟩
      rw [draw_eq, Nat.sub_add_cancel positive]
      rfl
    · rintro ⟨count, rfl⟩
      exact ⟨count + 1, Nat.le_add_left 1 count, rfl⟩
  · exact Activity.nodup_performAll_of_unchanged unchanged
  · intro name handed
    have numeral := Activity.numbered_of_mem_performAll unchanged handed
    have own := Activity.performAll_fixed activities ⟨settings, source⟩
    rw [recognises_iff, stem, own]
    exact numeral

end NameSource

end Clausal
