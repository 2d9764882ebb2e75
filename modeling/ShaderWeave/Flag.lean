import ShaderWeave.Table
import ShaderWeave.Number.Shortest
import ShaderWeave.Number.Scaled
import ShaderWeave.Json.Basic

set_option autoImplicit false

/-!
# Feature flags

A **flag** is a named value. Conditionals of a template ask whether a flag is set to true; macros
insert the value of a flag into the program.

## Main definitions

* `ShaderWeave.FlagValue` — a value: a truth value, an integer, a number or a text.
* `ShaderWeave.FlagValue.display` — the value as it is inserted into a program.
* `ShaderWeave.Flags` — flags by name.
* `ShaderWeave.Flags.toJson`, `ShaderWeave.Flags.ofJson?` — flags as JSON.
-/

namespace ShaderWeave

open Number

/-- **The value of a flag.** -/
inductive FlagValue where
  | bool (b : Bool)
  | int (n : Int64)
  | float (x : Binary64)
  | text (s : String)
  deriving DecidableEq

namespace FlagValue

/-- Whether a value enables a conditional. Only the truth value does: neither the number one nor the
text `true` is enough. -/
def isTrue : FlagValue → Bool
  | .bool b => b
  | _ => false

/-! ### Numbers of programs and of JSON -/

/-- Numbers in programs are positional from `10 ^ (-4)` up to `10 ^ 16`; of two equally near decimals
the greater one is written. -/
def programLayout : Layout :=
  ⟨-4, 16, .up⟩

/-- Numbers in JSON are positional from `10 ^ (-5)` up to `10 ^ 16`; of two equally near decimals the
even one is written. -/
def jsonLayout : Layout :=
  ⟨-5, 16, .even⟩

/-- A number as it stands in a program: always with a point or an exponent, so that it is no integer
literal. -/
def displayFloat (x : Binary64) : Text :=
  match Numeral.ofBinary64 programLayout x with
  | some n => n.toText false
  | none =>
    match x.value with
    | none => "NaN".toList
    | some _ => if x.negative then "-inf".toList else "inf".toList

/-- **The text of a value** in a program. -/
def display : FlagValue → Text
  | .bool true => "true".toList
  | .bool false => "false".toList
  | .int n => signedDecimal n.toInt
  | .float x => displayFloat x
  | .text s => s.toList

/-- **A value as JSON.** Numbers that are not finite have no numeral and become null. -/
def toJson : FlagValue → Json
  | .bool b => .bool b
  | .int n => .ofInt n.toInt
  | .float x => .ofOption .number (Numeral.ofBinary64 jsonLayout x)
  | .text s => .ofString s

/-- The value of a numeral: an integer if it is written as one and fits 64 bits, and otherwise a
number. Minus zero is a number. -/
def ofNumeral? (n : Numeral) : Option FlagValue :=
  let integer : Int := if n.negative then -(n.whole : Int) else n.whole
  if n.fraction = [] ∧ n.exponent = none ∧ ¬(n.negative = true ∧ n.whole = 0)
      ∧ Int64.minValue.toInt ≤ integer ∧ integer ≤ Int64.maxValue.toInt then
    some (.int (.ofInt integer))
  else n.scaled?.map .float

/-- **The value that a JSON value stands for.** -/
def ofJson? : Json → Option FlagValue
  | .bool b => some (.bool b)
  | .number n => ofNumeral? n
  | .string s => s.map .text
  | _ => none

end FlagValue

/-- **Flags** by name. -/
abbrev Flags := Table FlagValue

namespace Flags

/-- Whether a flag is set to true. -/
def isEnabled (flags : Flags) (name : String) : Bool :=
  (flags.get? name).any FlagValue.isTrue

/-- **Flags as JSON**: an object with a member for each flag, in the order of their names. -/
def toJson (flags : Flags) : Json :=
  .record (flags.entries.map fun p => (p.1, p.2.toJson))

/-- A member of a JSON object as the setting of a flag. -/
def setting? (member : Option String × Json) : Option (String × FlagValue) := do
  let name ← member.1
  let value ← FlagValue.ofJson? member.2
  return (name, value)

/-- **The flags that a JSON value stands for**: it is an object with a flag in each member. The last
member for a name counts. -/
def ofJson? : Json → Option Flags
  | .object members => (members.mapM setting?).map Table.ofList
  | _ => none

end Flags

end ShaderWeave
