/-
  LogSump.Python.Float — Python's `float`, a double: rounding, and the arithmetic of which the
  exceptions are those of `int` operands that are too large.

  - `double_int`: an integer below 2^53 is its own double.
  - `ofRat_finite`: a number below 2^100 has a double.
-/

import Mathlib

namespace LogSump.Python

/-! ## Rounding -/

/-- To the nearest integer, and to the even one of two that are equally near. -/
def roundEven (q : ℚ) : ℤ :=
  if q - ⌊q⌋ < 1 / 2 then ⌊q⌋
  else if 1 / 2 < q - ⌊q⌋ then ⌊q⌋ + 1
  else if ⌊q⌋ % 2 = 0 then ⌊q⌋ else ⌊q⌋ + 1

/-- The distance of neighbouring doubles at `q`. -/
def ulp (q : ℚ) : ℚ := 2 ^ (Int.log 2 |q| - 52)

/-- The double nearest to a number that is neither subnormal nor too large. -/
def double (q : ℚ) : ℚ := roundEven (q / ulp q) * ulp q

theorem roundEven_int (n : ℤ) : roundEven n = n := by simp [roundEven]

theorem roundEven_le (q : ℚ) : (roundEven q : ℚ) ≤ q + 1 := by
  have hf := Int.floor_le q
  unfold roundEven
  split_ifs <;> push_cast <;> linarith

theorem roundEven_nonneg {q : ℚ} (h : 0 ≤ q) : 0 ≤ roundEven q := by
  have hf : 0 ≤ ⌊q⌋ := Int.floor_nonneg.mpr h
  unfold roundEven
  split_ifs <;> omega

theorem abs_roundEven_le (q : ℚ) : |(roundEven q : ℚ)| ≤ |q| + 1 := by
  have hup := roundEven_le q
  have hdown : q - 1 ≤ roundEven q := by
    have hfloor := Int.sub_one_lt_floor q
    unfold roundEven
    split_ifs <;> push_cast <;> linarith
  rw [abs_le]
  constructor
  · linarith [neg_abs_le q]
  · linarith [le_abs_self q]

theorem ulp_pos (q : ℚ) : 0 < ulp q := by unfold ulp; positivity

theorem ulp_le {q : ℚ} (h : q ≠ 0) : ulp q ≤ |q| := by
  have hq : 0 < |q| := abs_pos.mpr h
  calc ulp q ≤ 2 ^ Int.log 2 |q| := zpow_le_zpow_right₀ (by norm_num) (by omega)
    _ ≤ |q| := by exact_mod_cast Int.zpow_log_le_self (b := 2) (by norm_num) hq

theorem double_zero : double 0 = 0 := by simp [double, roundEven]

theorem double_le (q : ℚ) : double q ≤ q + |q| := by
  by_cases h : q = 0
  · simp [h, double_zero]
  · have hu := ulp_pos q
    calc double q ≤ (q / ulp q + 1) * ulp q := by
          unfold double; exact mul_le_mul_of_nonneg_right (roundEven_le _) hu.le
      _ = q + ulp q := by field_simp
      _ ≤ q + |q| := by linarith [ulp_le h]

theorem double_int {n : ℤ} (h : |n| < 2 ^ 53) : double n = n := by
  by_cases hn : n = 0
  · simp [hn, double_zero]
  · have hpos : (0 : ℚ) < |(n : ℚ)| := abs_pos.mpr (by exact_mod_cast hn)
    have hlog : Int.log 2 |(n : ℚ)| ≤ 52 := by
      have hlt : |(n : ℚ)| < ((2 : ℕ) : ℚ) ^ (53 : ℤ) := by exact_mod_cast h
      have := (Int.lt_zpow_iff_log_lt (by norm_num) hpos).mp hlt
      omega
    -- the scale is a whole number of ulps
    obtain ⟨k, hk⟩ : ∃ k : ℕ, (52 : ℤ) - Int.log 2 |(n : ℚ)| = k := ⟨_, (Int.toNat_of_nonneg (by omega)).symm⟩
    have hs : (n : ℚ) / ulp n = ((n * 2 ^ k : ℤ) : ℚ) := by
      have hneg : Int.log 2 |(n : ℚ)| - 52 = -(k : ℤ) := by omega
      rw [ulp, hneg, zpow_neg, div_inv_eq_mul, zpow_natCast]
      push_cast
      rfl
    have hu := (ulp_pos (n : ℚ)).ne'
    rw [double, hs, roundEven_int, ← hs, div_mul_cancel₀ _ hu]

theorem double_le_two_mul {q b : ℚ} (h : q ≤ b) (hb : 0 ≤ b) : double q ≤ 2 * b := by
  have hd := double_le q
  rcases abs_cases q with ⟨ha, -⟩ | ⟨ha, -⟩ <;> linarith

/-! ## Floats -/

/-- A Python `float`. -/
inductive PyFloat where
  | finite (q : ℚ)
  | infinity (negative : Bool)
  | nan
  deriving DecidableEq

namespace PyFloat

/-- The nearest double, also of numbers that are subnormal or too large. -/
def ofRat (q : ℚ) : PyFloat :=
  let unit := max (ulp q) (2 ^ (-1074 : ℤ))
  let r := roundEven (q / unit) * unit
  if 2 ^ 1024 ≤ |r| then .infinity (decide (q < 0)) else .finite r

theorem ofRat_nonneg {q r : ℚ} (hq : 0 ≤ q) (h : ofRat q = .finite r) : 0 ≤ r := by
  simp only [ofRat] at h
  split at h
  · cases h
  · cases h
    have hunit : 0 < max (ulp q) (2 ^ (-1074 : ℤ)) := lt_max_of_lt_left (ulp_pos q)
    have hround : (0 : ℤ) ≤ roundEven (q / max (ulp q) (2 ^ (-1074 : ℤ))) := roundEven_nonneg (div_nonneg hq hunit.le)
    exact mul_nonneg (by exact_mod_cast hround) hunit.le

/-- A number that is far from the largest double. -/
theorem ofRat_finite {q : ℚ} (h : |q| ≤ 2 ^ 100) : ∃ r, ofRat q = .finite r := by
  unfold ofRat
  set unit := max (ulp q) (2 ^ (-1074 : ℤ)) with hunit
  have hpos : 0 < unit := lt_max_of_lt_left (ulp_pos q)
  have hsmall : unit ≤ 2 ^ 100 := by
    apply max_le
    · by_cases hq : q = 0
      · rw [hq, ulp]
        norm_num
      · exact (ulp_le hq).trans h
    · exact (zpow_le_one_of_nonpos₀ (by norm_num) (by norm_num)).trans (by norm_num)
  have hle : |(roundEven (q / unit) : ℚ) * unit| ≤ 2 ^ 101 := by
    calc |(roundEven (q / unit) : ℚ) * unit| = |(roundEven (q / unit) : ℚ)| * unit := by rw [abs_mul, abs_of_pos hpos]
      _ ≤ (|q / unit| + 1) * unit := mul_le_mul_of_nonneg_right (abs_roundEven_le _) hpos.le
      _ = |q| + unit := by rw [abs_div, abs_of_pos hpos]; field_simp
      _ ≤ 2 ^ 101 := by linarith [show (2 : ℚ) ^ 101 = 2 ^ 100 + 2 ^ 100 by norm_num]
  have hlt : ¬ (2 : ℚ) ^ 1024 ≤ |(roundEven (q / unit) : ℚ) * unit| := by
    rw [not_le]
    exact hle.trans_lt (pow_lt_pow_right₀ (by norm_num) (by norm_num))
  exact ⟨_, if_neg hlt⟩

/-- `float(n)`; `none` is the OverflowError. -/
def ofInt (n : Int) : Option PyFloat :=
  match ofRat n with
  | .finite q => some (.finite q)
  | _ => none

/-- `m / n` of two integers, which is rounded once; `none` is the OverflowError. -/
def divInt (m n : Int) : Option PyFloat :=
  match ofRat (m / n : ℚ) with
  | .finite q => some (.finite q)
  | _ => none

theorem ofInt_isSome {n : Int} (h : |n| ≤ 2 ^ 100) : (ofInt n).isSome := by
  obtain ⟨r, hr⟩ := ofRat_finite (q := n) (by exact_mod_cast h)
  unfold ofInt
  rw [hr]
  rfl

theorem divInt_isSome {m n : Int} (h : |m| ≤ 2 ^ 100) (hn : 0 < n) : (divInt m n).isSome := by
  have hq : |(m / n : ℚ)| ≤ 2 ^ 100 := by
    have hone : (1 : ℚ) ≤ n := by exact_mod_cast hn
    have hpos : (0 : ℚ) < n := by exact_mod_cast hn
    calc |(m / n : ℚ)| = |(m : ℚ)| / n := by rw [abs_div, abs_of_pos hpos]
      _ ≤ |(m : ℚ)| := div_le_self (abs_nonneg _) hone
      _ ≤ 2 ^ 100 := by exact_mod_cast h
  obtain ⟨r, hr⟩ := ofRat_finite hq
  unfold divInt
  rw [hr]
  rfl

theorem divInt_congr {m n m' n' : Int} (h : (m / n : ℚ) = m' / n') : divInt m n = divInt m' n' := by
  delta divInt
  rw [h]

def add : PyFloat → PyFloat → PyFloat
  | .finite a, .finite b => ofRat (a + b)
  | .nan, _ => .nan
  | _, .nan => .nan
  | .infinity a, .infinity b => if a = b then .infinity a else .nan
  | .infinity a, _ => .infinity a
  | _, .infinity b => .infinity b

/-- `x * k` for a positive `k`. -/
def scale (k : ℚ) : PyFloat → PyFloat
  | .finite a => ofRat (k * a)
  | x => x

/-- `x / y` for a finite divisor other than zero. -/
def div (x : PyFloat) (y : ℚ) : PyFloat :=
  match x with
  | .finite a => ofRat (a / y)
  | .infinity negative => .infinity (negative != decide (y < 0))
  | .nan => .nan

/-- `1 - x`. -/
def oneMinus : PyFloat → PyFloat
  | .finite a => ofRat (1 - a)
  | .infinity negative => .infinity (!negative)
  | .nan => .nan

/-- `max(0.0, x)`. -/
def clampBelow : PyFloat → PyFloat
  | .finite a => if 0 < a then .finite a else .finite 0
  | .infinity false => .infinity false
  | _ => .finite 0

/-- `round(x)`; `none` is the exception for infinities and NaN. -/
def round : PyFloat → Option Int
  | .finite a => some (roundEven a)
  | _ => none

end PyFloat

end LogSump.Python
