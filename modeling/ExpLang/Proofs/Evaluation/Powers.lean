import ExpLang.Evaluation.Operators
import Mathlib.Algebra.Order.Field.Power
import Mathlib.Data.Rat.Floor

/-!
# Powers of integers

`exactPower` is the power of two integers as arithmetic has it: a fraction if the exponent is below zero,
which is cut off toward zero, and a result only if it fits. An operator on integers gives that as long as
the exponent is below `2 ^ 32`, however far below zero it is. Greater exponents are taken for their
negatives, which only one and minus one do not show: zero is then refused as a divisor, and all other
bases give zero where the exact power does not fit.
-/

namespace ExpLang.Evaluation

open Decimal (fit64?)

/-- A fraction cut off toward zero. -/
def towardZero (q : ℚ) : ℤ := if 0 ≤ q then ⌊q⌋ else ⌈q⌉

/-- The power of two integers, cut off toward zero, if it fits in 64 bits. Zero has none with an exponent
below zero. -/
def exactPower (base exponent : ℤ) : Result :=
  if base = 0 ∧ exponent < 0 then .error .divisionByZero
  else checked "exponentiation" (towardZero ((base : ℚ) ^ exponent))

/-! ## The exact power -/

/-- An integer truncates to itself. -/
theorem towardZero_intCast (n : ℤ) : towardZero n = n := by
  rw [towardZero, Int.floor_intCast, Int.ceil_intCast, ite_self]

/-- A fraction between -1 and 1 truncates to 0. -/
theorem towardZero_of_abs_lt_one {q : ℚ} (h : |q| < 1) : towardZero q = 0 := by
  obtain ⟨hlow, hhigh⟩ := abs_lt.1 h
  rw [towardZero]
  split
  · rename_i hq
    exact Int.floor_eq_zero_iff.2 ⟨hq, hhigh⟩
  · rename_i hq
    exact Int.ceil_eq_zero_iff.2 ⟨hlow, (not_le.1 hq).le⟩

/-- A power with a natural exponent is the integer power, if it is in range. -/
theorem exactPower_natCast (base : ℤ) (n : ℕ) :
    exactPower base n = checked "exponentiation" (base ^ n) := by
  rw [exactPower, if_neg (by omega), zpow_natCast, ← Int.cast_pow, towardZero_intCast]

/-- Zero to a negative exponent divides by zero. -/
theorem exactPower_zero_of_neg {exponent : ℤ} (h : exponent < 0) :
    exactPower 0 exponent = .error .divisionByZero :=
  if_pos ⟨rfl, h⟩

/-- One to any exponent is one. -/
theorem exactPower_one (exponent : ℤ) : exactPower 1 exponent = .ok (.int 1) := by
  rw [exactPower, if_neg (by omega), Int.cast_one, one_zpow, ← Int.cast_one, towardZero_intCast]
  rfl

/-- The powers of minus one take turns. -/
theorem exactPower_neg_one (exponent : ℤ) :
    exactPower (-1) exponent = .ok (.int (if exponent % 2 = 0 then 1 else -1)) := by
  rw [exactPower, if_neg (by omega), Int.cast_neg, Int.cast_one]
  split
  · rename_i heven
    rw [(Int.even_iff.2 heven).neg_one_zpow, ← Int.cast_one, towardZero_intCast]
    rfl
  · rename_i hodd
    rw [(Int.odd_iff.2 (by omega)).neg_one_zpow, ← Int.cast_one, ← Int.cast_neg, towardZero_intCast]
    rfl

/-- All other integers have powers between minus one and one if the exponent is below zero. -/
theorem exactPower_of_neg {base exponent : ℤ} (hbase : 1 < |base|) (h : exponent < 0) :
    exactPower base exponent = .ok (.int 0) := by
  have hlt : |(base : ℚ) ^ exponent| < 1 := by
    rw [abs_zpow]
    exact zpow_lt_one_of_neg₀ (by exact_mod_cast hbase) h
  rw [exactPower, if_neg (by rintro ⟨rfl, -⟩; simp at hbase), towardZero_of_abs_lt_one hlt]
  rfl

/-- An integer of 64 bits or more does not fit. -/
theorem checked_of_le_abs {n : ℤ} (h : 2 ^ 64 ≤ |n|) (operation : String) :
    checked operation n = .error (.integerOverflow operation) := by
  have hmin : Int64.minValue.toInt = -9223372036854775808 := rfl
  have hmax : Int64.maxValue.toInt = 9223372036854775807 := rfl
  have hfit : fit64? n = none := by
    rw [fit64?, if_neg]
    rw [hmin, hmax]
    rcases le_abs.1 h with h | h <;> omega
  rw [checked, hfit]

/-- A power of a base other than 0, 1 and -1 overflows from exponent 64 on. -/
theorem checked_pow_of_le {base : ℤ} (hbase : 1 < |base|) {n : ℕ} (hn : 64 ≤ n) :
    checked "exponentiation" (base ^ n) = .error (.integerOverflow "exponentiation") := by
  apply checked_of_le_abs
  rw [abs_pow]
  calc (2 : ℤ) ^ 64 ≤ 2 ^ n := pow_le_pow_right₀ (by norm_num) hn
    _ ≤ |base| ^ n := pow_le_pow_left₀ (by norm_num) hbase n

/-! ## The operator -/

/-- The powers of zero, one and minus one repeat after two of them. -/
theorem pow_min_of_abs_le_one {base : ℤ} (hbase : |base| ≤ 1) (n : ℕ) :
    base ^ min n (2 + n % 2) = base ^ n := by
  rcases Nat.le_total n (2 + n % 2) with hn | hn
  · rw [Nat.min_eq_left hn]
  rw [Nat.min_eq_right hn]
  obtain rfl | rfl | rfl : base = 0 ∨ base = 1 ∨ base = -1 := by
    have := abs_le.1 hbase
    omega
  · rw [zero_pow (by omega), zero_pow (by omega)]
  · rw [one_pow, one_pow]
  · rw [neg_one_pow_eq_pow_mod_two, Nat.add_mod_left, Nat.mod_mod, ← neg_one_pow_eq_pow_mod_two]

/-- A power with an exponent that is not negative is exact. -/
theorem naturalPower_eq (base : Int64) (n : ℕ) : naturalPower base n = exactPower base.toInt n := by
  rw [exactPower_natCast, naturalPower]
  split
  · rename_i hbase
    have habs : |base.toInt| ≤ 1 := by rwa [Int.abs_eq_natAbs, ← Nat.cast_one, Nat.cast_le]
    rw [if_pos (by omega)]
    exact congrArg _ (pow_min_of_abs_le_one habs n)
  · rename_i hbase
    have hbase : 1 < |base.toInt| := by rwa [Int.abs_eq_natAbs, ← Nat.cast_one, Nat.cast_lt, ← not_le]
    split
    · rfl
    · exact (checked_pow_of_le hbase (by omega)).symm

/-- What is left out of the exact powers of natural numbers is a power with an exponent below zero that
is as even. -/
theorem power_of_neg (base exponent : Int64) {e : ℤ} (he : e < 0)
    (hparity : exponent.toInt % 2 = 0 ↔ e % 2 = 0) :
    (if base = 0 then .error .divisionByZero
      else if base = 1 then .ok (.int 1)
      else if base = -1 then .ok (.int (if exponent.toInt % 2 = 0 then 1 else -1))
      else .ok (.int 0) : Result) = exactPower base.toInt e := by
  split
  · rename_i hbase
    rw [hbase]
    exact (exactPower_zero_of_neg he).symm
  split
  · rename_i hbase
    rw [hbase]
    exact (exactPower_one e).symm
  split
  · rename_i hbase
    rw [hbase, if_congr hparity rfl rfl]
    exact (exactPower_neg_one e).symm
  · rename_i hzero hone hneg
    simp only [← Int64.toInt_inj] at hzero hone hneg
    have hbase : 1 < |base.toInt| := by
      rw [lt_abs]
      change ¬ base.toInt = 0 at hzero
      change ¬ base.toInt = 1 at hone
      change ¬ base.toInt = -1 at hneg
      omega
    exact (exactPower_of_neg hbase he).symm

/-- The exponent that an exponent is taken for. -/
def takenExponent (exponent : Int64) : ℤ :=
  if exponent.toInt < 2 ^ 32 then exponent.toInt else -exponent.toInt

/-- The operator gives the exact power with the exponent that it takes. -/
theorem power_eq (base exponent : Int64) :
    power base exponent = exactPower base.toInt (takenExponent exponent) := by
  rw [power, takenExponent]
  by_cases hhigh : exponent.toInt < 2 ^ 32
  · rw [if_pos hhigh]
    by_cases hlow : 0 ≤ exponent.toInt
    · rw [if_pos ⟨hlow, hhigh⟩, naturalPower_eq, Int.toNat_of_nonneg hlow]
    · rw [if_neg fun h => hlow h.1]
      exact power_of_neg base exponent (not_le.1 hlow) Iff.rfl
  · rw [if_neg hhigh, if_neg fun h => hhigh h.2]
    exact power_of_neg base exponent (by omega) (by omega)

/-- With a base other than one and minus one a great exponent and its negative have different powers. -/
theorem exactPower_neg_ne {base exponent : ℤ} (hone : base ≠ 1) (hneg : base ≠ -1)
    (hexponent : 64 ≤ exponent) : exactPower base (-exponent) ≠ exactPower base exponent := by
  obtain ⟨n, rfl⟩ := Int.eq_ofNat_of_zero_le (show 0 ≤ exponent by omega)
  rw [exactPower_natCast]
  by_cases hzero : base = 0
  · rw [hzero, exactPower_zero_of_neg (by omega), zero_pow (by omega)]
    exact fun h => by cases h
  · have hbase : 1 < |base| := by
      rw [lt_abs]
      omega
    rw [exactPower_of_neg hbase (by omega), checked_pow_of_le hbase (by omega)]
    exact fun h => by cases h

/-- A power of integers is the exact one as long as its exponent is below `2 ^ 32`, or its base is one or
minus one. From `2 ^ 32` on the exponent is taken for its negative. -/
theorem pow_int_eq (base exponent : Int64) :
    evalBinary .pow (.int base) (.int exponent) = exactPower base.toInt (takenExponent exponent) ∧
      (evalBinary .pow (.int base) (.int exponent) = exactPower base.toInt exponent.toInt ↔
        exponent.toInt < 2 ^ 32 ∨ base = 1 ∨ base = -1) := by
  have hpower : evalBinary .pow (.int base) (.int exponent) =
      exactPower base.toInt (takenExponent exponent) := power_eq base exponent
  refine ⟨hpower, ?_⟩
  rw [hpower, takenExponent]
  by_cases hhigh : exponent.toInt < 2 ^ 32
  · rw [if_pos hhigh]
    exact iff_of_true rfl (.inl hhigh)
  rw [if_neg hhigh]
  constructor
  · intro heq
    by_contra hno
    push Not at hno
    refine exactPower_neg_ne (fun h => hno.2.1 ?_) (fun h => hno.2.2 ?_) (by omega) heq
    · exact Int64.toInt_inj.1 h
    · exact Int64.toInt_inj.1 h
  · rintro (h | rfl | rfl)
    · exact absurd h hhigh
    · exact (exactPower_one _).trans (exactPower_one _).symm
    · have hparity : -exponent.toInt % 2 = 0 ↔ exponent.toInt % 2 = 0 := by omega
      refine (exactPower_neg_one _).trans (Eq.trans ?_ (exactPower_neg_one _).symm)
      rw [if_congr hparity rfl rfl]

/-- Two to the power `2 ^ 32` does not fit, and zero to that power is zero, but the operator gives zero
for the one and refuses the other. -/
theorem pow_int_beyond :
    evalBinary .pow (.int 2) (.int 4294967296) = .ok (.int 0) ∧
      exactPower 2 4294967296 = .error (.integerOverflow "exponentiation") ∧
      evalBinary .pow (.int 0) (.int 4294967296) = .error .divisionByZero ∧
      exactPower 0 4294967296 = .ok (.int 0) := by
  refine ⟨rfl, ?_, rfl, ?_⟩
  · exact (exactPower_natCast 2 4294967296).trans (checked_pow_of_le (by norm_num) (by norm_num))
  · rw [show (4294967296 : ℤ) = (4294967296 : ℕ) from rfl, exactPower_natCast, zero_pow (by norm_num)]
    rfl

end ExpLang.Evaluation
