import Mathlib.Data.Int.Log
import Mathlib.Data.Rat.Floor
import Mathlib.Algebra.Order.Field.Power
import Mathlib.Tactic.FieldSimp
import Mathlib.Tactic.Linarith
import Mathlib.Tactic.NormNum
import Mathlib.Tactic.Positivity
import Mathlib.Tactic.Ring
import PlaneAccess.Decimal.Shortest

/-!
# Fractions that numbers of the format stand for

The number nearest to a fraction depends on the value of the fraction alone,
and a number of the format is the nearest one to its own value. The exponent
that is chosen for a fraction is the integer part of its binary logarithm
(`exponentFor_eq_log`); all else follows from that.
-/

namespace PlaneAccess.Binary64

/-! ## Scaling by a power of two -/

theorem pow_eq (b n : Nat) : Nat.pow b n = b ^ n := rfl

theorem scaleTwo_pos {num den : Nat} (hd : 0 < den) (e : Int) :
    0 < (scaleTwo num den e).2 := by
  cases e with
  | ofNat n => exact Nat.mul_pos hd (Nat.pow_pos (by decide))
  | negSucc n => exact hd

/-- What a fraction is worth after scaling. -/
theorem scaleTwo_value (num den : Nat) (e : Int) :
    ((scaleTwo num den e).1 : ℚ) / (scaleTwo num den e).2 =
      (num : ℚ) / den * 2 ^ (-e) := by
  cases e with
  | ofNat n =>
    simp only [scaleTwo, pow_eq]
    push_cast
    rw [Int.ofNat_eq_natCast, zpow_neg, zpow_natCast, div_mul_eq_div_div]
    rfl
  | negSucc n =>
    simp only [scaleTwo, pow_eq]
    push_cast
    rw [Int.neg_negSucc, zpow_natCast]
    ring

theorem scaleTwo_mul_right (num den j : Nat) (e : Int) :
    scaleTwo (num * j) (den * j) e =
      ((scaleTwo num den e).1 * j, (scaleTwo num den e).2 * j) := by
  cases e with
  | ofNat n => simp only [scaleTwo, Nat.mul_right_comm]
  | negSucc n => simp only [scaleTwo, Nat.mul_right_comm]

theorem div_lt_iff_value_lt {n d k : Nat} (hd : 0 < d) :
    n / d < k ↔ (n : ℚ) / d < k := by
  rw [Nat.div_lt_iff_lt_mul hd, div_lt_iff₀ (by exact_mod_cast hd)]
  exact_mod_cast Iff.rfl

/-! ## The exponent of a fraction -/

theorem log_value_bounds {num den : Nat} (hn : num ≠ 0) (hd : den ≠ 0) :
    (num.log2 : Int) - den.log2 - 1 ≤ Int.log 2 ((num : ℚ) / den) ∧
      Int.log 2 ((num : ℚ) / den) ≤ (num.log2 : Int) - den.log2 := by
  have hq : (0 : ℚ) < (num : ℚ) / den := by positivity
  have hd' : (0 : ℚ) < den := by positivity
  have n1 : (2 : ℚ) ^ (num.log2 : Int) ≤ num := by
    exact_mod_cast Nat.log2_self_le hn
  have n2 : (num : ℚ) < 2 ^ ((num.log2 : Int) + 1) := by
    exact_mod_cast Nat.lt_log2_self (n := num)
  have d1 : (2 : ℚ) ^ (den.log2 : Int) ≤ den := by
    exact_mod_cast Nat.log2_self_le hd
  have d2 : (den : ℚ) < 2 ^ ((den.log2 : Int) + 1) := by
    exact_mod_cast Nat.lt_log2_self (n := den)
  constructor
  · rw [← Int.zpow_le_iff_le_log (by decide) hq, le_div_iff₀ hd']
    push_cast
    calc (2 : ℚ) ^ ((num.log2 : Int) - den.log2 - 1) * den
        ≤ 2 ^ ((num.log2 : Int) - den.log2 - 1) * 2 ^ ((den.log2 : Int) + 1) := by
          gcongr
      _ = 2 ^ (num.log2 : Int) := by
          rw [← zpow_add₀ (by norm_num)]
          congr 1
          ring
      _ ≤ num := n1
  · rw [← Int.lt_add_one_iff, ← Int.lt_zpow_iff_log_lt (by decide) hq, div_lt_iff₀ hd']
    push_cast
    calc (num : ℚ) < 2 ^ ((num.log2 : Int) + 1) := n2
      _ = 2 ^ ((num.log2 : Int) - den.log2 + 1) * 2 ^ (den.log2 : Int) := by
          rw [← zpow_add₀ (by norm_num)]
          congr 1
          ring
      _ ≤ 2 ^ ((num.log2 : Int) - den.log2 + 1) * den := by gcongr

/-- The mantissa fills 53 bits at the integer part of the logarithm. -/
theorem exponentFor_eq_log {num den : Nat} (hn : num ≠ 0) (hd : den ≠ 0) :
    exponentFor num den =
      max (Int.log 2 ((num : ℚ) / den) - 52) (-1074) := by
  obtain ⟨low, high⟩ := log_value_bounds hn hd
  have hq : (0 : ℚ) < (num : ℚ) / den := by positivity
  set guess : Int := (num.log2 : Int) - den.log2 - 52 with hguess
  -- the quotient is short of 53 bits just if the logarithm is the lower one
  have key : (scaleTwo num den guess).1 / (scaleTwo num den guess).2 < Nat.pow 2 52 ↔
      Int.log 2 ((num : ℚ) / den) < (num.log2 : Int) - den.log2 := by
    rw [div_lt_iff_value_lt (scaleTwo_pos (Nat.pos_of_ne_zero hd) _), scaleTwo_value,
      ← Int.lt_zpow_iff_log_lt (by decide) hq, zpow_neg, ← div_eq_mul_inv,
      div_lt_iff₀ (by positivity), pow_eq]
    have hfull : ((2 ^ 52 : Nat) : ℚ) * 2 ^ guess =
        ((2 : Nat) : ℚ) ^ ((num.log2 : Int) - den.log2) := by
      rw [Nat.cast_pow, Nat.cast_ofNat, ← zpow_natCast, ← zpow_add₀ (by norm_num)]
      congr 1
      rw [hguess]
      push_cast
      ring
    rw [hfull]
  unfold exponentFor
  simp only [← hguess]
  by_cases h : Int.log 2 ((num : ℚ) / den) < (num.log2 : Int) - den.log2
  · rw [if_pos (key.mpr h)]
    congr 1
    omega
  · rw [if_neg (fun hlt => h (key.mp hlt))]
    congr 1
    omega

theorem exponentFor_mul_right {num den j : Nat} (hn : num ≠ 0) (hd : den ≠ 0)
    (hj : j ≠ 0) : exponentFor (num * j) (den * j) = exponentFor num den := by
  rw [exponentFor_eq_log (Nat.mul_ne_zero hn hj) (Nat.mul_ne_zero hd hj),
    exponentFor_eq_log hn hd]
  push_cast
  rw [mul_div_mul_right _ _ (by exact_mod_cast hj)]

/-! ## Rounding -/

theorem divNearest_mul_right (n d : Nat) {j : Nat} (hj : 0 < j) :
    divNearest (n * j) (d * j) = divNearest n d := by
  have hlt : 2 * (n % d * j) < d * j ↔ 2 * (n % d) < d := by
    rw [← Nat.mul_assoc]
    exact Nat.mul_lt_mul_right hj
  have hgt : d * j < 2 * (n % d * j) ↔ d < 2 * (n % d) := by
    rw [← Nat.mul_assoc]
    exact Nat.mul_lt_mul_right hj
  simp only [divNearest, Nat.mul_div_mul_right _ _ hj, Nat.mul_mod_mul_right, hlt, hgt]

theorem divNearest_mul_self (m : Nat) {d : Nat} (hd : 0 < d) :
    divNearest (m * d) d = m := by
  simp [divNearest, Nat.mul_div_cancel _ hd, hd]

theorem ofFraction_mul_right (s : Bool) {num den j : Nat} (hn : num ≠ 0)
    (hd : den ≠ 0) (hj : j ≠ 0) :
    ofFraction s (num * j) (den * j) = ofFraction s num den := by
  simp only [ofFraction, exponentFor_mul_right hn hd hj, scaleTwo_mul_right,
    divNearest_mul_right _ _ (Nat.pos_of_ne_zero hj)]

/-- The exponent of a number of the format is the one its value gets. -/
theorem exponentFor_fractionOf {m : Nat} {e : Int} (h : IsNormal m e) (hm : m ≠ 0) :
    exponentFor (fractionOf m e).1 (fractionOf m e).2 = e := by
  obtain ⟨hlt, hlow, _, hfull⟩ := h
  have hnum : (fractionOf m e).1 ≠ 0 := by
    cases e with
    | ofNat n => exact Nat.mul_ne_zero hm (Nat.pow_pos (by decide)).ne'
    | negSucc n => exact hm
  have hden : (fractionOf m e).2 ≠ 0 := by
    cases e with
    | ofNat n => exact Nat.one_ne_zero
    | negSucc n => exact (Nat.pow_pos (by decide)).ne'
  have hvalue : ((fractionOf m e).1 : ℚ) / (fractionOf m e).2 = m * 2 ^ e := by
    cases e with
    | ofNat n =>
      simp only [fractionOf, pow_eq]
      push_cast
      rw [Int.ofNat_eq_natCast, zpow_natCast, div_one]
    | negSucc n =>
      simp only [fractionOf, pow_eq]
      push_cast
      rw [zpow_negSucc, div_eq_mul_inv]
  have hpos : (0 : ℚ) < m * 2 ^ e := by positivity
  have hup : Int.log 2 ((m : ℚ) * 2 ^ e) < e + 53 := by
    rw [← Int.lt_zpow_iff_log_lt (by decide) hpos, add_comm e, zpow_add₀ (by norm_num)]
    push_cast
    gcongr
    exact_mod_cast hlt
  rw [exponentFor_eq_log hnum hden, hvalue]
  rcases hfull with hfull | hleast
  · have hdown : e + 52 ≤ Int.log 2 ((m : ℚ) * 2 ^ e) := by
      rw [← Int.zpow_le_iff_le_log (by decide) hpos, add_comm e, zpow_add₀ (by norm_num)]
      push_cast
      gcongr
      exact_mod_cast hfull
    omega
  · omega

/-- A number of the format is the nearest one to its own value. -/
theorem ofFraction_fractionOf (s : Bool) {m : Nat} {e : Int} (h : IsNormal m e)
    (hm : m ≠ 0) :
    ofFraction s (fractionOf m e).1 (fractionOf m e).2 = finite s m e h := by
  have hround : divNearest (scaleTwo (fractionOf m e).1 (fractionOf m e).2 e).1
      (scaleTwo (fractionOf m e).1 (fractionOf m e).2 e).2 = m := by
    cases e with
    | ofNat n =>
      simp only [fractionOf, scaleTwo, Nat.one_mul]
      exact divNearest_mul_self m (Nat.pow_pos (by decide))
    | negSucc n => exact divNearest_mul_self m (Nat.pow_pos (by decide))
  unfold ofFraction
  simp only [exponentFor_fractionOf h hm, hround]
  simp [ofRounded, Nat.ne_of_lt h.1, h]

end PlaneAccess.Binary64
