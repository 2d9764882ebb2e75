import ShaderWeave.Number.Numeral

set_option autoImplicit false

/-!
# Numbers by scaling

A quick way to read a numeral as a number of 64 bits, which is exact for short numerals and may miss
the nearest number by a unit for long ones: the leading digits that fit 64 bits are rounded to a
number, and that is multiplied or divided by a rounded power of ten.

## Main definitions

* `ShaderWeave.Number.Magnitude.scaleTen?` — a magnitude times a power of ten, rounded.
* `ShaderWeave.Number.Numeral.scaled?` — the number that a numeral denotes when read this way.
-/

namespace ShaderWeave

namespace Number

/-- Appends digits to a significand for as long as it fits 64 bits. The second part holds the digits
that are left. -/
def appendDigits (significand : Nat) : List Digit → Nat × List Digit
  | [] => (significand, [])
  | d :: ds =>
    if 10 * significand + d.val < UInt64.size then appendDigits (10 * significand + d.val) ds
    else (significand, d :: ds)

/-- The greatest power of ten by which a magnitude is scaled at once. -/
def stepExponent : Int :=
  308

namespace Magnitude

/-- **A magnitude times a power of ten.** The power is rounded first and the result once more; powers
below `10 ^ (-308)` are taken in steps. There is no result beyond the range of the format. -/
def scaleTen? (m : Nat) (e : Int) (exponent : Int) : Option Magnitude :=
  if m = 0 then some (.finite m e)
  else if 0 ≤ exponent then
    if stepExponent < exponent then none
    else match binary64.round (Nat.pow 10 exponent.toNat) 1 with
      | .finite m' e' =>
        match binary64.roundScaled (m * m') (e + e') with
        | .finite m e => some (.finite m e)
        | .infinite => none
      | .infinite => none
  else
    let step := if -exponent ≤ stepExponent then -exponent else stepExponent
    match binary64.round (Nat.pow 10 step.toNat) 1 with
    | .finite m' e' =>
      match binary64.round (m <<< (e - e').toNat) (m' <<< (e' - e).toNat) with
      | .finite m e =>
        if -exponent ≤ stepExponent then some (.finite m e)
        else scaleTen? m e (exponent + stepExponent)
      | .infinite => none
    | .infinite => none
termination_by (-exponent).toNat
decreasing_by
  simp only [stepExponent] at *
  omega

end Magnitude

namespace Numeral

/-- **The number that a numeral denotes, read by scaling**, or `none` if that is beyond the range. Of
the digits that no longer fit the significand, those before the point count as powers of ten, and
those behind it not at all. -/
def scaled? (n : Numeral) : Option Binary64 :=
  let (head, left) := appendDigits 0 (digits n.whole)
  let (significand, unread) := appendDigits head n.fraction
  let taken := n.fraction.length - unread.length
  let exponent : Int := n.exponent.getD 0 + left.length - taken
  match binary64.round significand 1 with
  | .finite m e => (Magnitude.scaleTen? m e exponent).map (Binary64.ofMagnitude n.negative)
  | .infinite => none

end Numeral

end Number

end ShaderWeave
