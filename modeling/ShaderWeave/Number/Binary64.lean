import ShaderWeave.Number.Binary

set_option autoImplicit false

/-!
# Numbers of 64 bits

A binary floating-point number of 64 bits is its bit pattern: two numbers are the same exactly when
their bits are. So a NaN equals itself, and the two zeros differ.

## Main definitions

* `ShaderWeave.Number.Binary64` — a number of 64 bits.
* `ShaderWeave.Number.Binary64.negative`, `ShaderWeave.Number.Binary64.value` — its sign and value.
* `ShaderWeave.Number.Binary64.ofMagnitude` — the number of a sign and a magnitude.
-/

namespace ShaderWeave

namespace Number

/-- **A binary floating-point number of 64 bits**, by its bit pattern. -/
structure Binary64 where
  bits : UInt64
  deriving DecidableEq, Repr

namespace Binary64

/-- Whether the sign bit is set. -/
def negative (x : Binary64) : Bool :=
  x.bits.toNat >>> 63 = 1

/-- The eleven bits of the exponent. -/
def exponentField (x : Binary64) : Nat :=
  (x.bits.toNat >>> 52) % 2048

/-- The lower 52 bits. -/
def fractionField (x : Binary64) : Nat :=
  x.bits.toNat % (1 <<< 52)

/-- **The magnitude of a number**, or `none` for a NaN. -/
def value (x : Binary64) : Option Magnitude :=
  if x.exponentField = 2047 then
    if x.fractionField = 0 then some .infinite else none
  else if x.exponentField = 0 then some (.finite x.fractionField (-1074))
  else some (.finite (1 <<< 52 + x.fractionField) ((x.exponentField : Int) - 1075))

/-- Whether a number is neither infinite nor a NaN. -/
def isFinite (x : Binary64) : Bool :=
  x.exponentField ≠ 2047

/-- The number with a sign and with the lower 63 bits. -/
def withSign (negative : Bool) (bits : Nat) : Binary64 :=
  ⟨.ofNat (negative.toNat <<< 63 + bits)⟩

/-- **The number of a sign and a magnitude** of the format. -/
def ofMagnitude (negative : Bool) : Magnitude → Binary64
  | .finite m e => withSign negative ((e + 1074).toNat <<< 52 + m)
  | .infinite => withSign negative (2047 <<< 52)

/-- The infinite number of a sign. -/
def infinity (negative : Bool) : Binary64 :=
  ofMagnitude negative .infinite

/-- The quiet NaN of a sign. -/
def nan (negative : Bool) : Binary64 :=
  withSign negative (2047 <<< 52 + 1 <<< 51)

/-- The zero of a sign. -/
def zero (negative : Bool) : Binary64 :=
  withSign negative 0

end Binary64

end Number

end ShaderWeave
