import Mathlib.Algebra.Group.Nat.Defs
import Mathlib.Data.Nat.Size

/-! Products of double-precision numbers below one. The exact product of a
fraction and a natural number is rounded to 53 significant bits, ties to even;
its floor stays below the factor. -/
namespace Rounding

def precision : Nat := 53

/-- The nearest number with at most 53 significant bits. -/
def roundNearest (n : Nat) : Nat :=
  if n.size ≤ precision then n
  else
    let unit := 2 ^ (n.size - precision)
    let quotient := n / unit
    let rest := 2 * (n % unit)
    if unit < rest ∨ rest = unit ∧ quotient % 2 = 1 then (quotient + 1) * unit else quotient * unit

theorem roundNearest_exact (small : n < 2 ^ precision) : roundNearest n = n :=
  if_pos (Nat.size_le.mpr small)

/-- Rounding does not leave the numbers of 53 bits. -/
theorem le_roundNearest (large : 2 ^ precision ≤ n) : 2 ^ precision ≤ roundNearest n := by
  have bits : precision < n.size := Nat.lt_size.mpr large
  have whole : 2 ^ precision ≤ n / 2 ^ (n.size - precision) * 2 ^ (n.size - precision) := by
    have high : 2 ^ (n.size - 1) ≤ n := Nat.lt_size.mp (by omega)
    have unit : 2 ^ (n.size - 1) = 2 ^ (precision - 1) * 2 ^ (n.size - precision) := by
      rw [← Nat.pow_add]
      exact congrArg _ (by unfold precision at bits ⊢; omega)
    have quotient : 2 ^ (precision - 1) ≤ n / 2 ^ (n.size - precision) :=
      (Nat.le_div_iff_mul_le (Nat.two_pow_pos _)).mpr (unit ▸ high)
    have even : 2 ≤ 2 ^ (n.size - precision) := Nat.le_self_pow (by omega) 2
    calc 2 ^ precision = 2 ^ (precision - 1) * 2 := rfl
      _ ≤ n / 2 ^ (n.size - precision) * 2 ^ (n.size - precision) := Nat.mul_le_mul quotient even
  rw [roundNearest, if_neg (by omega)]
  dsimp only
  split
  · exact Nat.le_trans whole (Nat.mul_le_mul_right _ (Nat.le_succ _))
  · exact whole

/-- A double in `[0, 1)`: `significand / 2 ^ exponent`. -/
structure Fraction where
  significand : Nat
  exponent : Nat
  precise : significand < 2 ^ precision
  proper : significand < 2 ^ exponent

/-- `⌊fraction * factor⌋`, the product rounded as a double. -/
def floorMul (fraction : Fraction) (factor : Nat) : Nat :=
  roundNearest (fraction.significand * factor) / 2 ^ fraction.exponent

/-- Rounding up adds at most half a unit in the last place. -/
theorem roundNearest_le (n : Nat) : 2 * roundNearest n ≤ 2 * n + 2 ^ (n.size - precision) := by
  unfold roundNearest
  split
  · exact Nat.le_add_right _ _
  · dsimp only
    have whole := Nat.div_add_mod n (2 ^ (n.size - precision))
    generalize 2 ^ (n.size - precision) = unit at whole ⊢
    rw [Nat.mul_comm] at whole
    split
    · rename_i up
      rw [Nat.add_mul, Nat.one_mul]
      omega
    · omega

theorem roundNearest_lt (small : m < 2 ^ precision) (below : m * factor + factor ≤ bound)
    (positive : 0 < factor) : roundNearest (m * factor) < bound := by
  by_cases short : (m * factor).size ≤ precision
  · rw [roundNearest, if_pos short]
    omega
  · -- half a unit in the last place is less than the factor
    have unit : 2 ^ ((m * factor).size - precision) < 2 * factor := by
      have high : 2 ^ ((m * factor).size - 1) ≤ m * factor := Nat.lt_size.mp (by omega)
      have product : m * factor < 2 ^ precision * factor := Nat.mul_lt_mul_of_pos_right small positive
      have power :
          2 ^ ((m * factor).size - 1) * 2 = 2 ^ precision * 2 ^ ((m * factor).size - precision) := by
        rw [← Nat.pow_succ, ← Nat.pow_add]
        congr 1
        omega
      have scaled : 2 ^ precision * 2 ^ ((m * factor).size - precision) < 2 ^ precision * (2 * factor) := by
        calc 2 ^ precision * 2 ^ ((m * factor).size - precision)
            = 2 ^ ((m * factor).size - 1) * 2 := power.symm
          _ ≤ m * factor * 2 := Nat.mul_le_mul_right 2 high
          _ < 2 ^ precision * factor * 2 := Nat.mul_lt_mul_of_pos_right product (by omega)
          _ = 2 ^ precision * (2 * factor) := by rw [Nat.mul_assoc, Nat.mul_comm factor]
      exact Nat.lt_of_mul_lt_mul_left scaled
    have rounded := roundNearest_le (m * factor)
    omega

/-- No rounding reaches the factor itself. -/
theorem floorMul_lt (fraction : Fraction) (positive : 0 < factor) : floorMul fraction factor < factor := by
  apply Nat.div_lt_of_lt_mul
  apply roundNearest_lt fraction.precise _ positive
  calc fraction.significand * factor + factor
      = (fraction.significand + 1) * factor := by rw [Nat.add_mul, Nat.one_mul]
    _ ≤ 2 ^ fraction.exponent * factor := Nat.mul_le_mul_right _ fraction.proper

/-- The number of 53 significant bits nearest to a quotient, ties to even. -/
def roundQuotient (dividend divisor : Nat) : Nat :=
  let unit := divisor * 2 ^ ((dividend / divisor).size - precision)
  let quotient := dividend / unit
  let rest := 2 * (dividend % unit)
  (if unit < rest ∨ rest = unit ∧ quotient % 2 = 1 then quotient + 1 else quotient) *
    2 ^ ((dividend / divisor).size - precision)

/-- Rounding does not pass a number of 53 significant bits from below. -/
theorem roundQuotient_le (m k : Nat) (small : m < 2 ^ precision) (positive : 0 < divisor)
    (below : dividend ≤ m * 2 ^ k * divisor) : roundQuotient dividend divisor ≤ m * 2 ^ k := by
  have floor : dividend / divisor ≤ m * 2 ^ k := Nat.div_le_of_le_mul (by rwa [Nat.mul_comm] at below)
  have size : (dividend / divisor).size ≤ precision + k := by
    rw [Nat.size_le, Nat.pow_add]
    exact Nat.lt_of_le_of_lt floor (Nat.mul_lt_mul_of_pos_right small (Nat.two_pow_pos k))
  obtain ⟨count, is⟩ := Nat.pow_dvd_pow 2 (show (dividend / divisor).size - precision ≤ k by omega)
  simp only [roundQuotient]
  have whole := Nat.div_add_mod dividend (divisor * 2 ^ ((dividend / divisor).size - precision))
  have step := Nat.mul_pos positive (Nat.two_pow_pos ((dividend / divisor).size - precision))
  -- the bound is a multiple of the unit
  rw [is, Nat.mul_left_comm m] at below ⊢
  generalize 2 ^ ((dividend / divisor).size - precision) = unit at *
  rw [Nat.mul_comm _ unit]
  apply Nat.mul_le_mul_left unit
  have reach : dividend ≤ divisor * unit * (m * count) := by
    calc dividend ≤ unit * (m * count) * divisor := below
      _ = divisor * unit * (m * count) := by rw [Nat.mul_comm, Nat.mul_assoc]
  have quotient : dividend / (divisor * unit) ≤ m * count := Nat.div_le_of_le_mul reach
  split
  · rename_i up
    have short : dividend / (divisor * unit) ≠ m * count := by
      intro same
      rw [same] at whole
      omega
    omega
  · exact quotient

/-- Nor from above. -/
theorem le_roundQuotient (m k : Nat) (small : m < 2 ^ precision) (positive : 0 < divisor)
    (above : m * 2 ^ k * divisor ≤ dividend) : m * 2 ^ k ≤ roundQuotient dividend divisor := by
  have floor : m * 2 ^ k ≤ dividend / divisor := (Nat.le_div_iff_mul_le positive).mpr above
  have truncated : dividend / (divisor * 2 ^ ((dividend / divisor).size - precision)) *
      2 ^ ((dividend / divisor).size - precision) ≤ roundQuotient dividend divisor := by
    simp only [roundQuotient]
    apply Nat.mul_le_mul_right
    split
    · exact Nat.le_succ _
    · exact Nat.le_refl _
  refine Nat.le_trans ?_ truncated
  rw [← Nat.div_div_eq_div_mul]
  generalize dividend / divisor = q at floor ⊢
  by_cases fine : q.size - precision ≤ k
  · -- the number is a multiple of the unit
    obtain ⟨count, is⟩ := Nat.pow_dvd_pow 2 fine
    rw [is, Nat.mul_left_comm] at floor ⊢
    rw [Nat.mul_comm] at floor ⊢
    exact Nat.mul_le_mul_right _ ((Nat.le_div_iff_mul_le (Nat.two_pow_pos _)).mpr floor)
  · -- the quotient is larger by a power of two
    have coarse : k < q.size - precision := Nat.lt_of_not_le fine
    have high : 2 ^ (precision - 1) * 2 ^ (q.size - precision) ≤ q := by
      rw [← Nat.pow_add]
      apply Nat.lt_size.mp
      unfold precision at coarse ⊢
      omega
    have mantissa := (Nat.le_div_iff_mul_le (Nat.two_pow_pos (q.size - precision))).mpr high
    have power : 2 ^ precision * 2 ^ k ≤ 2 ^ (precision - 1) * 2 ^ (q.size - precision) := by
      rw [← Nat.pow_add, ← Nat.pow_add]
      apply Nat.pow_le_pow_right Nat.two_pos
      unfold precision at coarse ⊢
      omega
    calc m * 2 ^ k ≤ 2 ^ precision * 2 ^ k := Nat.mul_le_mul_right _ (Nat.le_of_lt small)
      _ ≤ 2 ^ (precision - 1) * 2 ^ (q.size - precision) := power
      _ ≤ q / 2 ^ (q.size - precision) * 2 ^ (q.size - precision) := Nat.mul_le_mul_right _ mantissa

/-- A quotient of 53 significant bits is its own. -/
theorem roundQuotient_exact (m k : Nat) (small : m < 2 ^ precision) (positive : 0 < divisor) :
    roundQuotient (m * 2 ^ k * divisor) divisor = m * 2 ^ k :=
  Nat.le_antisymm (roundQuotient_le m k small positive (Nat.le_refl _))
    (le_roundQuotient m k small positive (Nat.le_refl _))

/-- A rounded number has 53 significant bits. -/
theorem roundNearest_bits (n : Nat) : ∃ m k, m < 2 ^ precision ∧ roundNearest n = m * 2 ^ k := by
  unfold roundNearest
  split
  · rename_i short
    exact ⟨n, 0, Nat.size_le.mp short, (Nat.mul_one n).symm⟩
  · rename_i long
    have quotient : n / 2 ^ (n.size - precision) < 2 ^ precision := by
      apply Nat.div_lt_of_lt_mul
      rw [← Nat.pow_add]
      exact Nat.size_le.mp (by omega)
    dsimp only
    split
    · by_cases carries : n / 2 ^ (n.size - precision) + 1 = 2 ^ precision
      · refine ⟨1, precision + (n.size - precision), by decide, ?_⟩
        rw [carries, ← Nat.pow_add, Nat.one_mul]
      · exact ⟨_, _, by omega, rfl⟩
    · exact ⟨_, _, quotient, rfl⟩

/-- The same rounding in a finer unit. -/
theorem roundQuotient_scaled (n k : Nat) : roundQuotient (n * 2 ^ k) 1 = roundNearest n * 2 ^ k := by
  by_cases short : n.size ≤ precision
  · have fits := @roundQuotient_exact 1 n k (Nat.size_le.mp short) Nat.one_pos
    rw [roundNearest, if_pos short]
    simpa only [Nat.mul_one] using fits
  · have size : (n * 2 ^ k).size - precision = n.size - precision + k := by
      rw [← Nat.shiftLeft_eq, Nat.size_shiftLeft (by rintro rfl; simp at short)]
      omega
    have positive := Nat.two_pow_pos k
    simp only [roundQuotient, Nat.div_one, Nat.one_mul, size, Nat.pow_add, roundNearest, if_neg short,
      Nat.mul_div_mul_right _ _ positive, Nat.mul_mod_mul_right, ← Nat.mul_assoc]
    have grown : ∀ a b : Nat, (a * 2 ^ k < b * 2 ^ k ↔ a < b) ∧ (a * 2 ^ k = b * 2 ^ k ↔ a = b) :=
      fun a b => ⟨Nat.mul_lt_mul_right positive, Nat.mul_left_inj (Nat.pos_iff_ne_zero.mp positive)⟩
    simp only [(grown _ _).1, (grown _ _).2]
    split
    · rfl
    · rfl

end Rounding
