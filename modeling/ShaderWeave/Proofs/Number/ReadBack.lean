import ShaderWeave.Number.Shortest
import ShaderWeave.Proofs.Number.Rounding

set_option autoImplicit false

/-!
# Numerals read back as the numbers they were written for

The numeral of a finite number is chosen by a search, but whatever it finds is rounded to the number.
So the rational that a numeral denotes stands between the bits and the text: equal numerals belong to
equal numbers, for every layout.

## Main definitions

* `ShaderWeave.Number.Decimal.toRat` — the rational that a decimal denotes.
* `ShaderWeave.Number.Numeral.absRat` — the rational that a numeral denotes without its sign.
* `ShaderWeave.Number.Numeral.IsFractional` — the numeral is not written as an integer.

## Main results

* `ShaderWeave.Number.Binary64.value_canonical` — a finite number has a magnitude of the format.
* `ShaderWeave.Number.Binary64.eq_of_value_eq` — sign and magnitude determine the bits.
* `ShaderWeave.Number.roundRat_shortest` — the shortest decimal is rounded to its number.
* `ShaderWeave.Number.Numeral.ofBinary64_spec` — so is the numeral of a finite number.
* `ShaderWeave.Number.Numeral.ofBinary64_injOn` — finite numbers with one numeral are equal.
-/

namespace ShaderWeave

namespace Number

/-! ### Bits and magnitudes -/

namespace Binary64

/-- The exponent takes eleven bits. -/
theorem exponentField_lt (x : Binary64) : x.exponentField < 2048 :=
  Nat.mod_lt _ (by norm_num)

/-- The fraction takes 52 bits. -/
theorem fractionField_lt (x : Binary64) : x.fractionField < 2 ^ 52 :=
  Nat.mod_lt _ (by norm_num)

/-- The bits are the sign, the exponent and the fraction side by side. -/
theorem toNat_bits (x : Binary64) :
    x.bits.toNat = (if x.negative then 2 ^ 63 else 0) + x.exponentField * 2 ^ 52
      + x.fractionField := by
  have hlt : x.bits.toNat < 2 ^ 64 := x.bits.toNat_lt
  simp only [negative, exponentField, fractionField, Nat.shiftRight_eq_div_pow, Nat.shiftLeft_eq,
    decide_eq_true_eq]
  split <;> omega

/-- The magnitude of a finite number, by its fields. -/
theorem value_of_isFinite {x : Binary64} (h : x.isFinite = true) :
    x.value = if x.exponentField = 0 then some (.finite x.fractionField (-1074))
      else some (.finite (2 ^ 52 + x.fractionField) ((x.exponentField : ℤ) - 1075)) := by
  have hne : x.exponentField ≠ 2047 := by simpa [isFinite] using h
  simp only [value, if_neg hne, Nat.shiftLeft_eq, one_mul]

/-- **A finite number has a magnitude of the format.** -/
theorem value_canonical {x : Binary64} (h : x.isFinite = true) :
    ∃ m e, x.value = some (.finite m e) ∧ binary64.Canonical m e := by
  have hne : x.exponentField ≠ 2047 := by simpa [isFinite] using h
  have hexp := x.exponentField_lt
  have hfrac := x.fractionField_lt
  rw [value_of_isFinite h]
  split
  · refine ⟨_, _, rfl, ?_, ?_, ?_, .inr rfl⟩
    · show x.fractionField < 2 ^ 53
      omega
    · show (-1074 : ℤ) ≤ -1074
      omega
    · show (-1074 : ℤ) ≤ 971
      omega
  · refine ⟨_, _, rfl, ?_, ?_, ?_, .inl ?_⟩
    · show 2 ^ 52 + x.fractionField < 2 ^ 53
      omega
    · show (-1074 : ℤ) ≤ (x.exponentField : ℤ) - 1075
      omega
    · show (x.exponentField : ℤ) - 1075 ≤ 971
      omega
    · show 2 ^ 52 ≤ 2 ^ 52 + x.fractionField
      omega

/-- **Sign and magnitude determine the bits** of a finite number. -/
theorem eq_of_value_eq {x y : Binary64} (hx : x.isFinite = true) (hy : y.isFinite = true)
    (hsign : x.negative = y.negative) (hvalue : x.value = y.value) : x = y := by
  have hxfrac := x.fractionField_lt
  have hyfrac := y.fractionField_lt
  have hfields : x.exponentField = y.exponentField ∧ x.fractionField = y.fractionField := by
    rw [value_of_isFinite hx, value_of_isFinite hy] at hvalue
    split at hvalue <;> split at hvalue <;>
      simp only [Option.some.injEq, Magnitude.finite.injEq] at hvalue <;> omega
  have hbits : x.bits.toNat = y.bits.toNat := by
    rw [x.toNat_bits, y.toNat_bits, hsign, hfields.1, hfields.2]
  obtain ⟨xbits⟩ := x
  obtain ⟨ybits⟩ := y
  exact congrArg Binary64.mk (UInt64.toNat_inj.1 hbits)

end Binary64

/-! ### Decimals as rationals -/

namespace Decimal

/-- **The rational that a decimal denotes.** -/
def toRat (d : Decimal) : ℚ :=
  d.digits * 10 ^ d.scale

/-- A decimal reads back as a magnitude exactly if its rational is rounded to it. -/
theorem readsAs_iff (d : Decimal) (m : ℕ) (e : ℤ) :
    d.readsAs m e = true ↔ binary64.roundRat d.toRat = .finite m e := by
  have hq : ((d.digits * Nat.pow 10 d.scale.toNat : ℕ) : ℚ) / (Nat.pow 10 (-d.scale).toNat : ℕ) =
      d.toRat := by
    have h10 := zpow_eq_div 10 (by norm_num) d.scale
    simp only [Nat.pow_eq]
    push_cast at h10 ⊢
    rw [toRat, h10, mul_div_assoc]
  rw [readsAs, decide_eq_true_eq, binary64.round_eq_roundRat _ (by simp), hq]

/-- A decimal without its trailing zeros denotes the same rational. -/
theorem toRat_trimZeros (d : Decimal) : d.trimZeros.toRat = d.toRat := by
  fun_induction trimZeros d with
  | case1 d h ih =>
    have hdigits : ((d.digits / 10 : ℕ) : ℚ) * 10 = d.digits := by
      exact_mod_cast Nat.div_mul_cancel (Nat.dvd_of_mod_eq_zero h.2)
    rw [ih, toRat, toRat, zpow_add_one₀ (by norm_num), ← hdigits]
    ring
  | case2 d h => rfl

/-- The exact decimal of a magnitude denotes it. -/
theorem toRat_exact (m : ℕ) (e : ℤ) : (exact m e).toRat = m * 2 ^ e := by
  rw [exact, toRat_trimZeros, toRat]
  have h2 := zpow_eq_div 2 (by norm_num) e
  push_cast at h2
  rw [h2, Nat.shiftLeft_eq]
  push_cast [Nat.pow_eq]
  split
  · rename_i h
    have h10 : (10 : ℚ) ^ e = 1 / (2 ^ (-e).toNat * 5 ^ (-e).toNat) := by
      have := zpow_eq_div 10 (by norm_num) e
      push_cast at this
      rw [this, Int.toNat_of_nonpos h.le, pow_zero, ← mul_pow]
      norm_num
    rw [h10]
    field_simp
  · rename_i h
    rw [Int.toNat_of_nonpos (by omega : -e ≤ 0)]
    simp

end Decimal

/-! ### The search -/

/-- Whatever the search finds among the decimals of one length reads back. -/
theorem readsAs_of_nearestOf {tie : Tie} {m : ℕ} {e : ℤ} {count : ℕ} {d : Decimal}
    (h : nearestOf tie m e count = some d) : d.readsAs m e = true := by
  unfold nearestOf at h
  dsimp only at h
  split at h
  · rename_i hlow hhigh
    split at h
    · rwa [← Option.some.inj h]
    · split at h
      · rwa [← Option.some.inj h]
      · split at h
        · rwa [← Option.some.inj h]
        · rwa [← Option.some.inj h]
  · rename_i hlow _
    rwa [← Option.some.inj h]
  · rename_i _ hhigh
    rwa [← Option.some.inj h]
  · cases h

/-- **The shortest decimal is rounded to its number.** The search only returns what reads back, and
where it returns nothing the exact decimal is taken. -/
theorem roundRat_shortest (tie : Tie) {m : ℕ} {e : ℤ} (h : binary64.Canonical m e) :
    binary64.roundRat (shortest tie m e).toRat = .finite m e := by
  unfold shortest
  split
  · rename_i d hd
    obtain ⟨n, -, hn⟩ := List.exists_of_findSome?_eq_some hd
    rw [Decimal.toRat_trimZeros]
    exact (d.readsAs_iff m e).1 (readsAs_of_nearestOf hn)
  · rw [Decimal.toRat_exact]
    exact binary64.roundRat_canonical (by decide) h

/-! ### Numerals as rationals -/

/-- As many digits are taken as are asked for. -/
@[simp] theorem length_lastDigits (n len : ℕ) : (lastDigits n len).length = len := by
  induction len generalizing n with
  | zero => rfl
  | succ len ih => simp [lastDigits, ih]

/-- The last digits of a number denote its remainder. -/
theorem ofDigits_lastDigits (n len : ℕ) : ofDigits (lastDigits n len) = n % 10 ^ len := by
  induction len generalizing n with
  | zero => simp [lastDigits, ofDigits, Nat.mod_one]
  | succ len ih =>
    rw [lastDigits, ofDigits_append_singleton, ih, pow_succ', Nat.mod_mul]
    simp only [Fin.ofNat]
    omega

namespace Numeral

/-- **The rational that a numeral denotes**, without its sign. -/
def absRat (n : Numeral) : ℚ :=
  n.significand * 10 ^ n.scale

/-- **The numeral is not written as an integer**: it has a point or an exponent. -/
def IsFractional (n : Numeral) : Prop :=
  n.fraction ≠ [] ∨ n.exponent ≠ none

/-- A number cut into whole and fraction has all its digits. -/
theorem significand_cut (negative : Bool) (n places : ℕ) (exponent : Option ℤ) :
    significand ⟨negative, n / Nat.pow 10 places, lastDigits n places, exponent⟩ = n := by
  simp only [significand, length_lastDigits, ofDigits_lastDigits, Nat.pow_eq]
  exact Nat.div_add_mod' n (10 ^ places)

/-- The numeral of a decimal denotes the same rational, in every layout. -/
theorem absRat_ofDecimal (layout : Layout) (negative : Bool) (d : Decimal) :
    (ofDecimal layout negative d).absRat = d.toRat := by
  have hcount : 0 < (digits d.digits).length := List.length_pos_iff.2 (digits_ne_nil _)
  unfold ofDecimal
  dsimp only
  split
  · split
    · rename_i hscale
      have hs : scale ⟨negative, d.digits / Nat.pow 10 (-d.scale).toNat,
          lastDigits d.digits (-d.scale).toNat, none⟩ = d.scale := by
        simp only [scale, length_lastDigits, Option.getD_none]
        omega
      rw [absRat, significand_cut, hs, Decimal.toRat]
    · rename_i hscale
      have hs : significand ⟨negative, d.digits * Nat.pow 10 d.scale.toNat, [.zero], none⟩ =
          d.digits * 10 ^ d.scale.toNat * 10 := by
        simp [significand, ofDigits, Digit.zero]
      have hz := zpow_natCast (10 : ℚ) d.scale.toNat
      rw [Int.toNat_of_nonneg (by omega)] at hz
      rw [absRat, hs, Decimal.toRat, hz]
      simp [scale, zpow_neg]
  · have hs : scale ⟨negative, d.digits / Nat.pow 10 ((digits d.digits).length - 1),
        lastDigits d.digits ((digits d.digits).length - 1),
        some (d.scale + (digits d.digits).length - 1)⟩ = d.scale := by
      simp only [scale, length_lastDigits, Option.getD_some]
      omega
    rw [absRat, significand_cut, hs, Decimal.toRat]

/-- A decimal is written with a point or an exponent in every layout, so it is not taken for an integer.
-/
theorem isFractional_ofDecimal (layout : Layout) (negative : Bool) (d : Decimal) :
    (ofDecimal layout negative d).IsFractional := by
  unfold ofDecimal
  dsimp only
  split
  · split
    · rename_i hscale
      refine .inl fun h => ?_
      have := congrArg List.length h
      simp at this
      omega
    · exact .inl (by simp)
  · exact .inr (by simp)

/-- **The numeral of a finite number** exists in every layout. It has the sign of the number, is
rounded to its magnitude, and is not written as an integer. -/
theorem ofBinary64_spec (layout : Layout) {x : Binary64} (h : x.isFinite = true) :
    ∃ n, ofBinary64 layout x = some n ∧ n.negative = x.negative ∧
      x.value = some (binary64.roundRat n.absRat) ∧ n.IsFractional := by
  obtain ⟨m, e, hvalue, hcanonical⟩ := Binary64.value_canonical h
  rcases Nat.eq_zero_or_pos m with rfl | hm
  · refine ⟨⟨x.negative, 0, [.zero], none⟩, ?_, rfl, ?_, .inl (by simp)⟩
    · simp [ofBinary64, hvalue]
    · have hzero := binary64.roundRat_canonical (by decide) hcanonical
      simp only [Nat.cast_zero, zero_mul] at hzero
      simp [hvalue, absRat, significand, ofDigits, Digit.zero, hzero]
  · refine ⟨ofDecimal layout x.negative (shortest layout.tie m e), ?_, ?_, ?_,
      isFractional_ofDecimal _ _ _⟩
    · cases m with
      | zero => exact absurd hm (by simp)
      | succ m => simp [ofBinary64, hvalue]
    · unfold ofDecimal
      dsimp only
      split <;> [split; skip] <;> rfl
    · rw [absRat_ofDecimal, roundRat_shortest _ hcanonical, hvalue]

/-- **Finite numbers with one numeral are equal**, bit for bit. -/
theorem ofBinary64_injOn (layout : Layout) {x y : Binary64} (hx : x.isFinite = true)
    (hy : y.isFinite = true) (h : ofBinary64 layout x = ofBinary64 layout y) : x = y := by
  obtain ⟨n, hn, hxsign, hxvalue, -⟩ := ofBinary64_spec layout hx
  obtain ⟨n', hn', hysign, hyvalue, -⟩ := ofBinary64_spec layout hy
  have hnn : n = n' := by
    rw [hn, hn'] at h
    exact Option.some.inj h
  subst hnn
  exact Binary64.eq_of_value_eq hx hy (hxsign.symm.trans hysign) (hxvalue.trans hyvalue.symm)

end Numeral

end Number

end ShaderWeave
