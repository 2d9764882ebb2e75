import ShaderWeave.Number.Digit
import ShaderWeave.Number.Binary64

set_option autoImplicit false

/-!
# Numerals

A numeral is a decimal number as it is written: a sign, whole digits, digits behind the point and an
exponent of ten. This module writes numerals and reads them as numbers of 64 bits.

## Main definitions

* `ShaderWeave.Number.Numeral` — a written decimal number.
* `ShaderWeave.Number.Numeral.round` — its value rounded into a binary format.
* `ShaderWeave.Number.Numeral.toText` — a numeral as text.
* `ShaderWeave.Number.Binary64.parse?` — the number of 64 bits that a text denotes.
-/

namespace ShaderWeave

namespace Number

/-- **A numeral.** There is a point exactly if there are digits behind it. -/
structure Numeral where
  /-- Whether there is a minus sign. -/
  negative : Bool
  /-- The number before the point. -/
  whole : Nat
  /-- The digits behind the point. -/
  fraction : List Digit
  /-- The exponent of ten, if one is written. -/
  exponent : Option Int
  deriving DecidableEq, Repr

namespace Numeral

/-- The numeral of an integer. -/
def ofInt (n : Int) : Numeral :=
  ⟨n < 0, n.natAbs, [], none⟩

/-- The number of all digits without the point. -/
def significand (n : Numeral) : Nat :=
  n.whole * Nat.pow 10 n.fraction.length + ofDigits n.fraction

/-- The exponent of ten by which the significand is scaled. -/
def scale (n : Numeral) : Int :=
  n.exponent.getD 0 - n.fraction.length

/-- **The value of a numeral, rounded into a format.** A numeral that its exponent alone takes out of
the range of the format is settled without computing the power of ten: ten is more than two to the
third. -/
def round (f : BinaryFormat) (n : Numeral) : Magnitude :=
  let count : Int := (digits n.significand).length
  if n.significand = 0 then .finite 0 f.minExponent
  else if f.maxExponent + f.precision < 3 * n.scale then .infinite
  else if 3 * (n.scale + count) < f.minExponent - 1 then .finite 0 f.minExponent
  else f.round (n.significand * Nat.pow 10 n.scale.toNat) (Nat.pow 10 (-n.scale).toNat)

/-- **A numeral as text.** A positive exponent gets a plus sign where `plus` is set. -/
def toText (plus : Bool) (n : Numeral) : Text :=
  let sign : Text := if n.negative then ['-'] else []
  let fraction : Text := if n.fraction = [] then [] else '.' :: text n.fraction
  let exponent : Text := match n.exponent with
    | none => []
    | some e => 'e' :: (if e < 0 then ['-'] else if plus then ['+'] else []) ++ decimal e.natAbs
  sign ++ decimal n.whole ++ fraction ++ exponent

/-- The mark of an exponent, a sign and digits, of which there has to be one. Where no mark stands
there is no exponent. -/
def readExponent : Text → Option (Option Int × Text)
  | c :: s =>
    if c = 'e' || c = 'E' then
      let (negative, t) := match s with
        | '-' :: t => (true, t)
        | '+' :: t => (false, t)
        | t => (false, t)
      match readDigits t with
      | ([], _) => none
      | (ds, r) => some (some (if negative then -(ofDigits ds : Int) else ofDigits ds), r)
    else some (none, c :: s)
  | [] => some (none, [])

end Numeral

namespace Binary64

/-- The number that an unsigned text denotes: `inf`, `infinity` or `nan` in any case, or digits with
an optional point among or around them and an optional exponent. -/
def parseUnsigned? (format : BinaryFormat) (negative : Bool) (s : Text) : Option Binary64 :=
  let lower := s.map Char.toLower
  if lower = "inf".toList || lower = "infinity".toList then some (infinity negative)
  else if lower = "nan".toList then some (nan negative)
  else
    let (whole, r) := readDigits s
    let (fraction, r) := match r with
      | '.' :: t => readDigits t
      | t => ([], t)
    if whole.isEmpty && fraction.isEmpty then none
    else match Numeral.readExponent r with
      | some (exponent, []) =>
        match Numeral.round format ⟨negative, ofDigits whole, fraction, exponent⟩ with
        | .finite m e => some (ofMagnitude negative (binary64.roundScaled m e))
        | .infinite => some (infinity negative)
      | _ => none

/-- **The number that a text denotes**, rounded into a format of at most 64 bits. A sign may come
first. -/
def parse? (format : BinaryFormat) : Text → Option Binary64
  | '-' :: s => parseUnsigned? format true s
  | '+' :: s => parseUnsigned? format false s
  | s => parseUnsigned? format false s

end Binary64

end Number

end ShaderWeave
