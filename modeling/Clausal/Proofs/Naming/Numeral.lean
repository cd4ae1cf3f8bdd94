import Mathlib.Algebra.Group.Nat.Defs
import Clausal.NameSource

namespace Clausal.NameSource

def numbered (stem : String) (n : Nat) : String :=
  stem ++ toString n

theorem draw_eq (source : NameSource) (ambient : String) :
    source.draw ambient =
      (numbered (source.stem ambient) (source.count + 1), { source with count := source.count + 1 }) :=
  rfl

theorem toList_numbered (stem : String) (n : Nat) :
    (numbered stem n).toList = stem.toList ++ Nat.toDigits 10 n := by
  simp [numbered]

theorem toDigits_injective {i j : Nat} (same : Nat.toDigits 10 i = Nat.toDigits 10 j) : i = j := by
  have values := congrArg (fun digits => Nat.ofDigitChars 10 digits 0) same
  simpa using values

theorem numbered_injective {stem : String} {i j : Nat} (same : numbered stem i = numbered stem j) :
    i = j := by
  have lists := congrArg String.toList same
  rw [toList_numbered, toList_numbered] at lists
  exact toDigits_injective (List.append_cancel_left lists)

theorem digitChar_of_isDigit {c : Char} (digit : c.isDigit) : Nat.digitChar (c.toNat - 48) = c := by
  have bounds := Char.isDigit_iff_toNat.mp digit
  have low : 48 ≤ c.toNat := bounds.1
  have high : c.toNat ≤ 57 := bounds.2
  apply Char.toNat_inj.mp
  rw [Nat.toNat_digitChar_of_lt_ten (by omega)]
  omega

/-- Digits written after a positive number make the numeral of the number they continue. -/
theorem toDigits_append_digits {a : Nat} (positive : 0 < a) (ds : List Char) (digits : ∀ d ∈ ds, d.isDigit) :
    Nat.toDigits 10 a ++ ds = Nat.toDigits 10 (Nat.ofDigitChars 10 ds a) := by
  induction ds generalizing a with
  | nil => simp
  | cons d ds ih =>
    have digit := digits d List.mem_cons_self
    have bound : d.toNat - 48 < 10 := by
      have bounds := Char.isDigit_iff_toNat.mp digit
      have high : d.toNat ≤ 57 := bounds.2
      omega
    have single : [d] = Nat.toDigits 10 (d.toNat - 48) := by
      rw [Nat.toDigits_of_lt_base bound, digitChar_of_isDigit digit]
    calc
      Nat.toDigits 10 a ++ d :: ds = (Nat.toDigits 10 a ++ [d]) ++ ds := by simp
      _ = Nat.toDigits 10 (10 * a + (d.toNat - 48)) ++ ds := by
        rw [single, Nat.toDigits_append_toDigits (by omega) positive bound]
      _ = Nat.toDigits 10 (Nat.ofDigitChars 10 (d :: ds) a) := by
        rw [ih (by omega) fun e member => digits e (.tail _ member), Nat.ofDigitChars_cons]
        rfl

theorem isNumeral_cons (c : Char) (cs : List Char) :
    isNumeral (c :: cs) = true ↔ c ≠ '0' ∧ ∀ d ∈ c :: cs, d.isDigit := by
  simp [isNumeral, Char.isDigit, Char.le_def]

theorem isNumeral_append {ds : List Char} (nonempty : ds ≠ []) (es : List Char) :
    isNumeral (ds ++ es) = true ↔ isNumeral ds = true ∧ ∀ e ∈ es, e.isDigit := by
  obtain ⟨c, cs, rfl⟩ := List.exists_cons_of_ne_nil nonempty
  rw [List.cons_append, isNumeral_cons, isNumeral_cons, ← List.cons_append]
  simp only [List.mem_append, or_imp, forall_and, and_assoc]

theorem isNumeral_toDigits {n : Nat} (positive : 0 < n) : isNumeral (Nat.toDigits 10 n) = true := by
  induction n using Nat.strongRecOn with
  | ind n ih =>
    by_cases small : n < 10
    · rw [Nat.toDigits_of_lt_base small, isNumeral_cons, Ne, Nat.digitChar_eq_zero]
      refine ⟨by omega, fun d member => ?_⟩
      rw [List.mem_singleton.mp member, Nat.isDigit_digitChar]
      exact decide_eq_true small
    · rw [Nat.toDigits_of_base_le (by omega) (by omega), isNumeral_append Nat.toDigits_ne_nil]
      refine ⟨ih (n / 10) (by omega) (by omega), fun d member => ?_⟩
      rw [List.mem_singleton.mp member, Nat.isDigit_digitChar]
      exact decide_eq_true (by omega)

/-- A text that the recogniser takes for a numeral is the numeral of the number that it denotes. -/
theorem toDigits_of_isNumeral {cs : List Char} (numeral : isNumeral cs = true) :
    0 < Nat.ofDigitChars 10 cs 0 ∧ Nat.toDigits 10 (Nat.ofDigitChars 10 cs 0) = cs := by
  cases cs with
  | nil => simp [isNumeral] at numeral
  | cons c cs =>
    obtain ⟨nonzero, digits⟩ := (isNumeral_cons c cs).mp numeral
    have digit := digits c List.mem_cons_self
    have first := digitChar_of_isDigit digit
    have bounds := Char.isDigit_iff_toNat.mp digit
    have high : c.toNat ≤ 57 := bounds.2
    have positive : 0 < c.toNat - 48 := by
      refine Nat.pos_of_ne_zero fun zero => nonzero ?_
      rw [← first, zero]
      rfl
    have whole := toDigits_append_digits positive cs fun d member => digits d (.tail _ member)
    rw [Nat.toDigits_of_lt_base (by omega), first] at whole
    have value : Nat.ofDigitChars 10 (c :: cs) 0 = Nat.ofDigitChars 10 cs (c.toNat - 48) := by
      rw [Nat.ofDigitChars_cons, Nat.mul_zero, Nat.zero_add]
      rfl
    refine ⟨?_, ?_⟩
    · rw [value, Nat.ofDigitChars_eq_ofDigitChars_zero]
      have power : 0 < 10 ^ cs.length * (c.toNat - 48) := Nat.mul_pos (Nat.pow_pos (by omega)) positive
      omega
    · rw [value, ← whole]
      rfl

theorem length_toDigits_mono {i j : Nat} (le : i ≤ j) :
    (Nat.toDigits 10 i).length ≤ (Nat.toDigits 10 j).length := by
  have bound := (Nat.length_toDigits_le_iff (by omega) Nat.length_toDigits_pos).mp
    (Nat.le_refl (Nat.toDigits 10 j).length)
  exact (Nat.length_toDigits_le_iff (by omega) Nat.length_toDigits_pos).mpr (Nat.lt_of_le_of_lt le bound)

/-- Two names with different numbers are the same exactly if the stem of the smaller number is the
other stem followed by the digits that the larger number has before those of the smaller. -/
theorem numbered_eq_iff {s t : String} {i j : Nat} (less : i < j) :
    numbered s i = numbered t j ↔
      ∃ d, 1 ≤ d ∧ s = numbered t d ∧ j = d * 10 ^ (toString i).length + i := by
  have digits : ∀ c ∈ Nat.toDigits 10 i, c.isDigit := fun c member =>
    Nat.isDigit_of_mem_toDigits (by omega) (by omega) member
  have length : (toString i).length = (Nat.toDigits 10 i).length := by
    rw [← String.length_toList]
    simp
  have value : ∀ d, Nat.ofDigitChars 10 (Nat.toDigits 10 i) d = d * 10 ^ (toString i).length + i := by
    intro d
    rw [Nat.ofDigitChars_eq_ofDigitChars_zero, Nat.ofDigitChars_toDigits (by omega) (by omega), length,
      Nat.mul_comm]
  rw [← String.toList_inj, toList_numbered, toList_numbered, List.append_eq_append_iff]
  constructor
  · rintro (⟨gap, _, longer⟩ | ⟨gap, split, longer⟩)
    · have lengths := congrArg List.length longer
      have mono := length_toDigits_mono (Nat.le_of_lt less)
      rw [List.length_append] at lengths
      have none : gap = [] := List.eq_nil_of_length_eq_zero (by omega)
      rw [none, List.nil_append] at longer
      have same := toDigits_injective longer
      omega
    · have nonempty : gap ≠ [] := by
        rintro rfl
        have same := toDigits_injective longer
        omega
      have numeral := isNumeral_toDigits (n := j) (by omega)
      rw [longer, isNumeral_append nonempty] at numeral
      obtain ⟨positive, written⟩ := toDigits_of_isNumeral numeral.1
      refine ⟨Nat.ofDigitChars 10 gap 0, positive, ?_, ?_⟩
      · rw [← String.toList_inj, toList_numbered, written, split]
      · rw [← value, ← Nat.ofDigitChars_append, ← longer, Nat.ofDigitChars_toDigits (by omega) (by omega)]
  · intro continued
    obtain ⟨d, positive, rfl, sum⟩ := continued
    refine Or.inr ⟨Nat.toDigits 10 d, toList_numbered t d, ?_⟩
    rw [toDigits_append_digits positive _ digits, value, sum]

theorem ne_numbered_self (stem : String) (n : Nat) : stem ≠ numbered stem n := by
  intro same
  have lengths := congrArg (fun name => name.toList.length) same
  have positive : 0 < (Nat.toDigits 10 n).length := Nat.length_toDigits_pos
  simp only [toList_numbered, List.length_append] at lengths
  omega

theorem getLast?_numbered (stem : String) (n : Nat) :
    ∃ c ∈ (numbered stem n).toList.getLast?, c.isDigit = true := by
  have last := List.getLast?_eq_some_getLast (Nat.toDigits_ne_nil (n := n) (b := 10))
  refine ⟨_, ?_, Nat.isDigit_of_mem_toDigits (by omega) (by omega) (List.mem_of_getLast? last)⟩
  rw [toList_numbered, List.getLast?_append, last]
  rfl

theorem rest?_eq_some_iff (ds cs tail : List Char) : rest? ds cs = some tail ↔ cs = ds ++ tail := by
  induction ds generalizing cs with
  | nil => simp [rest?]
  | cons d ds ih =>
    cases cs with
    | nil => simp [rest?]
    | cons c cs =>
      by_cases same : c = d
      · simp [rest?, same, ih]
      · simp [rest?, same]

/-- A source recognises exactly the names it may issue: the stem in force with a number from one
on. -/
theorem recognises_iff (source : NameSource) (ambient name : String) :
    source.recognises ambient name = true ↔
      ∃ n, 1 ≤ n ∧ name = numbered (source.stem ambient) n := by
  rw [recognises]
  constructor
  · intro recognised
    split at recognised
    · rename_i tail split
      obtain ⟨positive, digits⟩ := toDigits_of_isNumeral recognised
      refine ⟨Nat.ofDigitChars 10 tail 0, positive, ?_⟩
      apply String.toList_inj.mp
      rw [toList_numbered, digits, (rest?_eq_some_iff _ _ _).mp split]
    · simp at recognised
  · intro numeral
    obtain ⟨n, positive, rfl⟩ := numeral
    rw [(rest?_eq_some_iff _ _ _).mpr (toList_numbered _ n)]
    exact isNumeral_toDigits positive

end Clausal.NameSource
