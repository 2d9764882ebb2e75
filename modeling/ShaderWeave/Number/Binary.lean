set_option autoImplicit false

/-!
# Rounding to binary formats

A binary floating-point format represents the magnitudes `m * 2 ^ e` with `m` below a power of two
and `e` in a range. Quotients of natural numbers are rounded into a format exactly: to the nearest
represented magnitude, and to the one with even `m` when two are equally near. A factor `2 ^ k` is
written as a shift by `k`.

## Main definitions

* `ShaderWeave.Number.roundQuotient` — a quotient rounded to the nearest natural number.
* `ShaderWeave.Number.BinaryFormat` — a format; `binary32` and `binary64` are the usual ones.
* `ShaderWeave.Number.BinaryFormat.round` — a quotient rounded into a format.
-/

namespace ShaderWeave

namespace Number

/-- **A quotient rounded to the nearest natural number**; a half goes to the even neighbour. -/
def roundQuotient (num den : Nat) : Nat :=
  if 2 * (num % den) < den then num / den
  else if den < 2 * (num % den) then num / den + 1
  else num / den + num / den % 2

/-- The greatest `e` with `2 ^ e ≤ num / den`, for positive `num` and `den`. -/
def floorLog2 (num den : Nat) : Int :=
  let e : Int := num.log2 - den.log2
  if num <<< (-e).toNat < den <<< e.toNat then e - 1 else e

/-- **A magnitude** in a binary format. -/
inductive Magnitude where
  /-- The magnitude `m * 2 ^ e`. -/
  | finite (m : Nat) (e : Int)
  /-- More than the format can represent. -/
  | infinite
  deriving DecidableEq, Repr

/-- **A binary format**: the magnitudes `m * 2 ^ e` with `m` below `2 ^ precision` and `e` between
`minExponent` and `maxExponent`. -/
structure BinaryFormat where
  precision : Nat
  minExponent : Int
  maxExponent : Int
  deriving DecidableEq, Repr

/-- The format of 32 bits. -/
def binary32 : BinaryFormat :=
  ⟨24, -149, 104⟩

/-- The format of 64 bits. -/
def binary64 : BinaryFormat :=
  ⟨53, -1074, 971⟩

namespace BinaryFormat

/-- The magnitude `m * 2 ^ e` if `e` is in range. -/
def magnitude (f : BinaryFormat) (m : Nat) (e : Int) : Magnitude :=
  if e ≤ f.maxExponent then .finite m e else .infinite

/-- **A quotient rounded into a format.** The unit of the result is the least one at which the
rounded quotient keeps within the precision, and never below that of the format. -/
def round (f : BinaryFormat) (num den : Nat) : Magnitude :=
  if num = 0 then .finite 0 f.minExponent
  else
    let least := floorLog2 num den + 1 - f.precision
    let e := if least < f.minExponent then f.minExponent else least
    let m := roundQuotient (num <<< (-e).toNat) (den <<< e.toNat)
    if m < 1 <<< f.precision then f.magnitude m e else f.magnitude (m / 2) (e + 1)

/-- The magnitude `m * 2 ^ e`, for any `m` and `e`, rounded into a format. -/
def roundScaled (f : BinaryFormat) (m : Nat) (e : Int) : Magnitude :=
  f.round (m <<< e.toNat) (1 <<< (-e).toNat)

end BinaryFormat

end Number

end ShaderWeave
