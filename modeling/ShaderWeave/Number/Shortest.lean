import ShaderWeave.Number.Numeral

set_option autoImplicit false

/-!
# Shortest digits

A number of 64 bits is written with the fewest significant digits that read back as the number, and
among those with the nearest. What reads back is tested with the same rounding that reads numerals.

## Main definitions

* `ShaderWeave.Number.Tie` — which of two equally near decimals is taken.
* `ShaderWeave.Number.shortest` — the shortest decimal that reads back as a magnitude.
* `ShaderWeave.Number.Layout` — where positional notation ends.
* `ShaderWeave.Number.Numeral.ofBinary64` — the numeral of a finite number.
-/

namespace ShaderWeave

namespace Number

/-- Which of two equally near decimals is taken: the greater one, or the one with an even last
digit. -/
inductive Tie where
  | up
  | even
  deriving DecidableEq, Repr

/-- The greatest `k` with `10 ^ k ≤ num / den`, for positive `num` and `den`. -/
def floorLog10 (num den : Nat) : Int :=
  if den ≤ num then (digits (num / den)).length - 1
  else
    let count := (digits (den / num)).length
    if den ≤ num * Nat.pow 10 (count - 1) then 1 - count else -count

/-- **A decimal**: `digits * 10 ^ scale`. -/
structure Decimal where
  digits : Nat
  scale : Int
  deriving DecidableEq, Repr

namespace Decimal

/-- The decimal without trailing zeros among its digits. -/
def trimZeros (d : Decimal) : Decimal :=
  if h : d.digits ≠ 0 ∧ d.digits % 10 = 0 then trimZeros ⟨d.digits / 10, d.scale + 1⟩ else d
termination_by d.digits
decreasing_by omega

/-- Whether a decimal reads back as a magnitude of 64 bits. -/
def readsAs (d : Decimal) (m : Nat) (e : Int) : Bool :=
  binary64.round (d.digits * Nat.pow 10 d.scale.toNat) (Nat.pow 10 (-d.scale).toNat) = .finite m e

/-- The value of a magnitude as a decimal, exactly. -/
def exact (m : Nat) (e : Int) : Decimal :=
  trimZeros ⟨m <<< e.toNat * Nat.pow 5 (-e).toNat, if e < 0 then e else 0⟩

end Decimal

/-- **The nearest decimal of `count` digits that reads back as `m * 2 ^ e`**, if one does. The
candidates are the two neighbours of the value on the grid of such decimals. -/
def nearestOf (tie : Tie) (m : Nat) (e : Int) (count : Nat) : Option Decimal :=
  let num := m <<< e.toNat
  let den := 1 <<< (-e).toNat
  let scale := floorLog10 num den + 1 - count
  let num := num * Nat.pow 10 (-scale).toNat
  let den := den * Nat.pow 10 scale.toNat
  let low : Decimal := ⟨num / den, scale⟩
  let high : Decimal := ⟨num / den + 1, scale⟩
  match low.readsAs m e, high.readsAs m e with
  | true, true =>
    if 2 * (num % den) < den then some low
    else if den < 2 * (num % den) then some high
    else if tie = .even ∧ low.digits % 2 = 0 then some low
    else some high
  | true, false => some low
  | false, true => some high
  | false, false => none

/-- **The shortest decimal that reads back as `m * 2 ^ e`.** Seventeen digits always suffice. -/
def shortest (tie : Tie) (m : Nat) (e : Int) : Decimal :=
  match (List.range 17).findSome? fun n => nearestOf tie m e (n + 1) with
  | some d => d.trimZeros
  | none => .exact m e

/-- **A layout** of numbers: from which power of ten on, and below which one, they are written in
positional notation. All others get an exponent. -/
structure Layout where
  positionalFrom : Int
  positionalBelow : Int
  tie : Tie
  deriving DecidableEq, Repr

namespace Numeral

/-- The numeral of a decimal. In positional notation at least one digit stands behind the point; with
an exponent one digit stands before it. -/
def ofDecimal (layout : Layout) (negative : Bool) (d : Decimal) : Numeral :=
  let count := (Number.digits d.digits).length
  let top : Int := d.scale + count - 1
  let cut (places : Nat) (exponent : Option Int) : Numeral :=
    ⟨negative, d.digits / Nat.pow 10 places, lastDigits d.digits places, exponent⟩
  if layout.positionalFrom ≤ top ∧ top < layout.positionalBelow then
    if d.scale < 0 then cut (-d.scale).toNat none
    else ⟨negative, d.digits * Nat.pow 10 d.scale.toNat, [.zero], none⟩
  else cut (count - 1) (some top)

/-- **The numeral of a finite number**, or `none` for an infinite one or a NaN. -/
def ofBinary64 (layout : Layout) (x : Binary64) : Option Numeral :=
  match x.value with
  | some (.finite 0 _) => some ⟨x.negative, 0, [.zero], none⟩
  | some (.finite m e) => some (ofDecimal layout x.negative (shortest layout.tie m e))
  | _ => none

end Numeral

end Number

end ShaderWeave
