import ShaderWeave.Json.Basic

set_option autoImplicit false

/-!
# Digests

A configuration is identified by a digest of 128 bits. This module has the digest as a value and its
text; the function that computes it is in `ShaderWeave.Digest.Xxh3`.

## Main definitions

* `ShaderWeave.Digest` — 128 bits in two halves.
* `ShaderWeave.Digest.hex` — the 32 hexadecimal digits.
-/

namespace ShaderWeave

/-- **A digest** of 128 bits. -/
structure Digest where
  low : UInt64
  high : UInt64
  deriving DecidableEq, Repr

namespace Digest

/-- The last `len` hexadecimal digits of a number. -/
def hexDigits (n : Nat) : (len : Nat) → Text
  | 0 => []
  | len + 1 => hexDigits (n / 16) len ++ [Json.hexChar (n % 16)]

/-- **A digest as 32 hexadecimal digits**, the most significant first. -/
def hex (d : Digest) : String :=
  String.ofList (hexDigits d.high.toNat 16 ++ hexDigits d.low.toNat 16)

end Digest

end ShaderWeave
