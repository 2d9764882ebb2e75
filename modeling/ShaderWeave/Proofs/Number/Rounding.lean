import Mathlib.Algebra.Order.Archimedean.Basic
import Mathlib.Data.Int.Log
import Mathlib.Data.Rat.Floor
import Mathlib.Tactic.FieldSimp
import Mathlib.Tactic.Positivity
import Mathlib.Tactic.Ring
import ShaderWeave.Number.Binary64

set_option autoImplicit false

/-!
# Rounding depends on the quotient alone

A quotient is rounded from its numerator and denominator, but only their ratio matters, and a
magnitude of the format is rounded to itself. So numbers of a format are told apart by any rationals
that are rounded to them.

## Main definitions

* `ShaderWeave.Number.BinaryFormat.Canonical` — a magnitude as the format represents it.
* `ShaderWeave.Number.BinaryFormat.roundRat` — a rational rounded into a format.

## Main results

* `ShaderWeave.Number.floorLog2_eq_log` — the exponent that rounding starts from is the binary
  logarithm of the quotient.
* `ShaderWeave.Number.BinaryFormat.round_eq_roundRat` — rounding depends on the quotient alone.
* `ShaderWeave.Number.BinaryFormat.roundRat_canonical` — a magnitude of the format is rounded to
  itself.
-/

namespace ShaderWeave

namespace Number

/-! ### Powers with integer exponents -/

/-- A power with an integer exponent as a quotient of two powers, of which one is one. -/
theorem zpow_eq_div (b : ℕ) (hb : b ≠ 0) (e : ℤ) :
    (b : ℚ) ^ e = (b : ℚ) ^ e.toNat / (b : ℚ) ^ (-e).toNat := by
  have hb' : (b : ℚ) ≠ 0 := by exact_mod_cast hb
  rw [eq_div_iff (pow_ne_zero _ hb'), ← zpow_natCast, ← zpow_natCast, ← zpow_add₀ hb']
  congr 1
  omega

/-- A quotient is below a power exactly if the shifted numerator is below the shifted denominator. -/
theorem shift_lt_shift_iff {num den : ℕ} (hden : 0 < den) (e : ℤ) :
    num <<< (-e).toNat < den <<< e.toNat ↔ (num : ℚ) / den < 2 ^ e := by
  have hd : (0 : ℚ) < den := by exact_mod_cast hden
  have h2 : (2 : ℚ) ^ e = (2 : ℚ) ^ e.toNat / (2 : ℚ) ^ (-e).toNat := by
    exact_mod_cast zpow_eq_div 2 (by norm_num) e
  rw [h2, div_lt_div_iff₀ hd (by positivity), Nat.shiftLeft_eq, Nat.shiftLeft_eq,
    mul_comm ((2 : ℚ) ^ e.toNat)]
  exact_mod_cast Iff.rfl

/-- A number is at least two to its binary logarithm. -/
theorem zpow_log2_le {n : ℕ} (hn : 0 < n) : (2 : ℚ) ^ (n.log2 : ℤ) ≤ n := by
  exact_mod_cast Nat.log2_self_le hn.ne'

/-- A number is below the next power of two. -/
theorem lt_zpow_log2_succ (n : ℕ) : (n : ℚ) < 2 ^ ((n.log2 : ℤ) + 1) := by
  exact_mod_cast Nat.lt_log2_self (n := n)

/-- The binary logarithm of `q` is the only `e` with `2 ^ e ≤ q < 2 ^ (e + 1)`. -/
theorem eq_log_of_zpow_le {q : ℚ} (hq : 0 < q) {e : ℤ} (hle : (2 : ℚ) ^ e ≤ q)
    (hlt : q < 2 ^ (e + 1)) : e = Int.log 2 q := by
  have h₁ : e ≤ Int.log 2 q :=
    (Int.zpow_le_iff_le_log (by norm_num) hq).1 (by exact_mod_cast hle)
  have h₂ : Int.log 2 q < e + 1 :=
    (Int.lt_zpow_iff_log_lt (by norm_num) hq).1 (by exact_mod_cast hlt)
  omega

/-- The binary logarithm of a scaled natural number. -/
theorem log_mul_zpow {m : ℕ} (hm : 0 < m) (e : ℤ) :
    Int.log 2 ((m : ℚ) * 2 ^ e) = m.log2 + e := by
  have h2 : (0 : ℚ) < 2 ^ e := zpow_pos (by norm_num) e
  refine (eq_log_of_zpow_le (by positivity) ?_ ?_).symm
  · rw [zpow_add₀ (by norm_num)]
    exact mul_le_mul_of_nonneg_right (zpow_log2_le hm) h2.le
  · rw [add_right_comm, zpow_add₀ (by norm_num)]
    exact mul_lt_mul_of_pos_right (lt_zpow_log2_succ m) h2

/-- **The exponent that rounding starts from is the binary logarithm of the quotient.**

**Proof sketch.** The difference `e` of the binary logarithms of numerator and denominator is off by at
most one: the quotient lies between `2 ^ (e - 1)` and `2 ^ (e + 1)`. The comparison with `2 ^ e`
decides. -/
theorem floorLog2_eq_log {num den : ℕ} (hnum : 0 < num) (hden : 0 < den) :
    floorLog2 num den = Int.log 2 ((num : ℚ) / den) := by
  have hn : (0 : ℚ) < num := by exact_mod_cast hnum
  have hd : (0 : ℚ) < den := by exact_mod_cast hden
  have hq : (0 : ℚ) < num / den := div_pos hn hd
  have hlo : (2 : ℚ) ^ ((num.log2 : ℤ) - den.log2 - 1) ≤ num / den := by
    rw [le_div_iff₀ hd]
    calc (2 : ℚ) ^ ((num.log2 : ℤ) - den.log2 - 1) * den
        ≤ 2 ^ ((num.log2 : ℤ) - den.log2 - 1) * 2 ^ ((den.log2 : ℤ) + 1) :=
        mul_le_mul_of_nonneg_left (lt_zpow_log2_succ den).le (zpow_nonneg (by norm_num) _)
      _ = 2 ^ (num.log2 : ℤ) := by
        rw [← zpow_add₀ (by norm_num)]
        congr 1
        ring
      _ ≤ num := zpow_log2_le hnum
  have hhi : (num : ℚ) / den < 2 ^ ((num.log2 : ℤ) - den.log2 + 1) := by
    rw [div_lt_iff₀ hd]
    calc (num : ℚ) < 2 ^ ((num.log2 : ℤ) + 1) := lt_zpow_log2_succ num
      _ = 2 ^ ((num.log2 : ℤ) - den.log2 + 1) * 2 ^ (den.log2 : ℤ) := by
        rw [← zpow_add₀ (by norm_num)]
        congr 1
        ring
      _ ≤ 2 ^ ((num.log2 : ℤ) - den.log2 + 1) * den :=
        mul_le_mul_of_nonneg_left (zpow_log2_le hden) (zpow_nonneg (by norm_num) _)
  unfold floorLog2
  simp only [shift_lt_shift_iff hden]
  split
  · rename_i h
    refine eq_log_of_zpow_le hq hlo ?_
    rwa [sub_add_cancel]
  · rename_i h
    exact eq_log_of_zpow_le hq (le_of_not_gt h) hhi

/-! ### Rounding and common factors -/

/-- A common factor does not change how a quotient is rounded to a natural number. -/
theorem roundQuotient_mul {k : ℕ} (hk : 0 < k) (num den : ℕ) :
    roundQuotient (k * num) (k * den) = roundQuotient num den := by
  have hmod : 2 * (k * num % (k * den)) = k * (2 * (num % den)) := by
    rw [Nat.mul_mod_mul_left]
    ring
  simp only [roundQuotient, hmod, Nat.mul_div_mul_left _ _ hk, Nat.mul_lt_mul_left hk]

/-- A natural number is rounded to itself. -/
theorem roundQuotient_mul_self {k : ℕ} (hk : 0 < k) (m : ℕ) : roundQuotient (m * k) k = m := by
  simp [roundQuotient, Nat.mul_mod_left, Nat.mul_div_cancel m hk, hk]

namespace BinaryFormat

variable (f : BinaryFormat)

/-- **Rounding does not depend on a common factor** of numerator and denominator. -/
theorem round_mul {k : ℕ} (hk : 0 < k) {den : ℕ} (hden : 0 < den) (num : ℕ) :
    f.round (k * num) (k * den) = f.round num den := by
  unfold round
  by_cases hnum : num = 0
  · simp [hnum]
  · have hlog : floorLog2 (k * num) (k * den) = floorLog2 num den := by
      have hk' : (k : ℚ) ≠ 0 := by exact_mod_cast hk.ne'
      rw [floorLog2_eq_log (by positivity) (by positivity),
        floorLog2_eq_log (Nat.pos_of_ne_zero hnum) hden]
      push_cast
      rw [mul_div_mul_left _ _ hk']
    have hshift : ∀ a b : ℕ, (k * a) <<< b = k * (a <<< b) := by
      intro a b
      rw [Nat.shiftLeft_eq, Nat.shiftLeft_eq, mul_assoc]
    simp only [hlog, hshift, roundQuotient_mul hk, if_neg hnum,
      if_neg (Nat.mul_ne_zero hk.ne' hnum)]

/-- **A rational rounded into a format**, without its sign. -/
def roundRat (q : ℚ) : Magnitude :=
  f.round q.num.natAbs q.den

/-- **Rounding depends on the quotient alone.** -/
theorem round_eq_roundRat (num : ℕ) {den : ℕ} (hden : 0 < den) :
    f.round num den = f.roundRat (num / den) := by
  have hd : (den : ℚ) ≠ 0 := by exact_mod_cast hden.ne'
  have hpos : (0 : ℚ) ≤ num / den := by positivity
  -- numerator and denominator of the quotient, without signs
  have hcross : num * ((num : ℚ) / den).den = den * ((num : ℚ) / den).num.natAbs := by
    have hq := Rat.mul_den_eq_num ((num : ℚ) / den)
    have habs : ((((num : ℚ) / den).num.natAbs : ℕ) : ℚ) = ((num : ℚ) / den).num := by
      rw [← Int.cast_natCast, Int.natAbs_of_nonneg (Rat.num_nonneg.2 hpos)]
    have : ((num * ((num : ℚ) / den).den : ℕ) : ℚ) =
        ((den * ((num : ℚ) / den).num.natAbs : ℕ) : ℚ) := by
      rw [Nat.cast_mul, Nat.cast_mul, habs, ← hq]
      field_simp
    exact_mod_cast this
  calc f.round num den
      = f.round (((num : ℚ) / den).den * num) (((num : ℚ) / den).den * den) :=
        (f.round_mul (Rat.den_pos _) hden num).symm
    _ = f.round (den * ((num : ℚ) / den).num.natAbs) (den * ((num : ℚ) / den).den) := by
        rw [mul_comm _ num, hcross, mul_comm _ den]
    _ = f.roundRat (num / den) := f.round_mul hden (Rat.den_pos _) _

/-! ### Magnitudes of the format -/

/-- **A magnitude as the format represents it**: the exponent is in range, and least among those at
which the magnitude keeps within the precision. -/
structure Canonical (m : ℕ) (e : ℤ) : Prop where
  lt_precision : m < 2 ^ f.precision
  min_le : f.minExponent ≤ e
  le_max : e ≤ f.maxExponent
  normal_or_least : 2 ^ (f.precision - 1) ≤ m ∨ e = f.minExponent

/-- **A magnitude of the format is rounded to itself.** -/
theorem roundRat_canonical (hf : 0 < f.precision) {m : ℕ} {e : ℤ} (h : f.Canonical m e) :
    f.roundRat (m * 2 ^ e) = .finite m e := by
  have hq : ((m * 2 ^ e.toNat : ℕ) : ℚ) / ((2 ^ (-e).toNat : ℕ) : ℚ) = m * 2 ^ e := by
    have h2 := zpow_eq_div 2 (by norm_num) e
    push_cast at h2 ⊢
    rw [h2, mul_div_assoc]
  rw [← hq, ← f.round_eq_roundRat _ (by positivity)]
  unfold round
  rcases Nat.eq_zero_or_pos m with rfl | hm
  · have he : e = f.minExponent := by
      rcases h.normal_or_least with hle | he
      · exact absurd hle (by simp)
      · exact he
    simp [he]
  · have hlog : floorLog2 (m * 2 ^ e.toNat) (2 ^ (-e).toNat) = m.log2 + e := by
      rw [floorLog2_eq_log (by positivity) (by positivity), hq, log_mul_zpow hm]
    have hlt : m.log2 < f.precision := (Nat.log2_lt hm.ne').2 h.lt_precision
    -- the unit of the result is that of the magnitude
    have hunit : (if floorLog2 (m * 2 ^ e.toNat) (2 ^ (-e).toNat) + 1 - f.precision < f.minExponent
        then f.minExponent
        else floorLog2 (m * 2 ^ e.toNat) (2 ^ (-e).toNat) + 1 - f.precision) = e := by
      have hmin := h.min_le
      rw [hlog]
      rcases h.normal_or_least with hle | he
      · have : f.precision - 1 ≤ m.log2 := (Nat.le_log2 hm.ne').2 hle
        split <;> omega
      · split <;> omega
    have hquot : roundQuotient ((m * 2 ^ e.toNat) <<< (-e).toNat)
        (2 ^ (-e).toNat <<< e.toNat) = m := by
      rw [Nat.shiftLeft_eq, Nat.shiftLeft_eq, mul_assoc, mul_comm (2 ^ (-e).toNat)]
      exact roundQuotient_mul_self (by positivity) m
    simp only [hunit, hquot]
    rw [if_neg (by positivity), if_pos (by simpa [Nat.shiftLeft_eq] using h.lt_precision)]
    exact if_pos h.le_max

end BinaryFormat

end Number

end ShaderWeave
