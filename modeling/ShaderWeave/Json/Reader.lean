import ShaderWeave.Json.Basic

set_option autoImplicit false

/-!
# Reading JSON

A reader for JSON texts, strict in every point of the grammar: no leading zeros, no trailing commas,
no control characters inside strings, and nothing behind the value but white space.

## Main definitions

* `ShaderWeave.Json.parse?` — the value that a text denotes.
-/

namespace ShaderWeave

open Number

namespace Json

/-- White space between tokens. -/
def isSpace (c : Char) : Bool :=
  c = ' ' || c = '\t' || c = '\n' || c = '\r'

/-- The text without the white space that it starts with. -/
def skipSpace (s : Text) : Text :=
  s.dropWhile isSpace

/-! ### Strings -/

/-- **A unit of a string**: a character, or a surrogate written as an escape. -/
inductive StringUnit where
  | char (c : Char)
  | surrogate (u : Nat)
  deriving DecidableEq, Repr

/-- The unit of a number of 16 bits. -/
def StringUnit.ofCode (n : Nat) : StringUnit :=
  if 0xd800 ≤ n ∧ n < 0xe000 then .surrogate n else .char (Char.ofNat n)

/-- The value of a hexadecimal digit. -/
def hexValue? (c : Char) : Option Nat :=
  if c.isDigit then some (c.toNat - 48)
  else if 'a'.toNat ≤ c.toNat ∧ c.toNat ≤ 'f'.toNat then some (c.toNat - 87)
  else if 'A'.toNat ≤ c.toNat ∧ c.toNat ≤ 'F'.toNat then some (c.toNat - 55)
  else none

/-- The number of four hexadecimal digits. -/
def hexCode? (a b c d : Char) : Option Nat := do
  let a ← hexValue? a
  let b ← hexValue? b
  let c ← hexValue? c
  let d ← hexValue? d
  return ((a * 16 + b) * 16 + c) * 16 + d

/-- The character of an escape of two characters, by the second one. -/
def unescape? (c : Char) : Option Char :=
  if c = '"' then some '"'
  else if c = '\\' then some '\\'
  else if c = '/' then some '/'
  else if c = 'b' then some '\x08'
  else if c = 'f' then some '\x0c'
  else if c = 'n' then some '\n'
  else if c = 'r' then some '\r'
  else if c = 't' then some '\t'
  else none

/-- The units of a string up to its closing quote, and what follows that. -/
def readUnits : Text → Option (List StringUnit × Text)
  | [] => none
  | '"' :: s => some ([], s)
  | '\\' :: 'u' :: a :: b :: c :: d :: s =>
    match hexCode? a b c d with
    | some n => (readUnits s).map fun p => (.ofCode n :: p.1, p.2)
    | none => none
  | '\\' :: e :: s =>
    match unescape? e with
    | some c => (readUnits s).map fun p => (.char c :: p.1, p.2)
    | none => none
  | c :: s =>
    if c = '\\' ∨ c.toNat < 0x20 then none
    else (readUnits s).map fun p => (.char c :: p.1, p.2)

/-- The text that units denote. A high surrogate and a low one behind it are one character; any other
surrogate is unpaired. -/
def joinUnits : List StringUnit → Option Text
  | [] => some []
  | .char c :: us => (joinUnits us).map (c :: ·)
  | .surrogate h :: .surrogate l :: us =>
    if h < 0xdc00 ∧ 0xdc00 ≤ l then
      (joinUnits us).map (Char.ofNat (0x10000 + (h - 0xd800) * 0x400 + (l - 0xdc00)) :: ·)
    else none
  | .surrogate _ :: _ => none

/-- A string behind its opening quote. -/
def readString (s : Text) : Option (Option String × Text) :=
  (readUnits s).map fun p => ((joinUnits p.1).map String.ofList, p.2)

/-! ### Numbers -/

/-- The point of a numeral and the digits behind it, of which there has to be one. -/
def readFraction : Text → Option (List Digit × Text)
  | '.' :: s =>
    match readDigits s with
    | ([], _) => none
    | (ds, r) => some (ds, r)
  | s => some ([], s)

/-- A numeral without its sign. -/
def readUnsigned (negative : Bool) (s : Text) : Option (Numeral × Text) :=
  match readDigits s with
  | ([], _) => none
  | (0 :: _ :: _, _) => none
  | (ds, r) => do
    let (fraction, r) ← readFraction r
    let (exponent, r) ← Numeral.readExponent r
    return (⟨negative, ofDigits ds, fraction, exponent⟩, r)

/-- **A numeral**: an integer without leading zeros, a fraction and an exponent. -/
def readNumeral : Text → Option (Numeral × Text)
  | '-' :: s => readUnsigned true s
  | s => readUnsigned false s

/-! ### Values -/

mutual

/-- **The value at the start of a text**, and what follows it. Every call within takes away one unit
of fuel. -/
def readValue : (fuel : Nat) → Text → Option (Json × Text)
  | 0, _ => none
  | n + 1, s =>
    match skipSpace s with
    | 'n' :: 'u' :: 'l' :: 'l' :: r => some (.null, r)
    | 't' :: 'r' :: 'u' :: 'e' :: r => some (.bool true, r)
    | 'f' :: 'a' :: 'l' :: 's' :: 'e' :: r => some (.bool false, r)
    | '"' :: r => (readString r).map fun p => (.string p.1, p.2)
    | '[' :: r =>
      match skipSpace r with
      | ']' :: r => some (.array [], r)
      | r => (readItems n r).map fun p => (.array p.1, p.2)
    | '{' :: r =>
      match skipSpace r with
      | '}' :: r => some (.object [], r)
      | r => (readMembers n r).map fun p => (.object p.1, p.2)
    | r => (readNumeral r).map fun p => (.number p.1, p.2)

/-- The items of an array, of which there is at least one, through its bracket. -/
def readItems : (fuel : Nat) → Text → Option (List Json × Text)
  | 0, _ => none
  | n + 1, s =>
    match readValue n s with
    | none => none
    | some (v, r) =>
      match skipSpace r with
      | ']' :: r => some ([v], r)
      | ',' :: r => (readItems n r).map fun p => (v :: p.1, p.2)
      | _ => none

/-- The members of an object, of which there is at least one, through its brace. -/
def readMembers : (fuel : Nat) → Text → Option (List (Option String × Json) × Text)
  | 0, _ => none
  | n + 1, s =>
    match skipSpace s with
    | '"' :: r =>
      match readString r with
      | none => none
      | some (k, r) =>
        match skipSpace r with
        | ':' :: r =>
          match readValue n r with
          | none => none
          | some (v, r) =>
            match skipSpace r with
            | '}' :: r => some ([(k, v)], r)
            | ',' :: r => (readMembers n r).map fun p => ((k, v) :: p.1, p.2)
            | _ => none
        | _ => none
    | _ => none

end

/-- **The value that a text denotes**, if it is a JSON text. Every nesting and every item costs at
least one character and at most two units of fuel. -/
def parse? (s : Text) : Option Json :=
  match readValue (2 * s.length + 2) s with
  | some (v, r) => if skipSpace r = [] then some v else none
  | none => none

end Json

end ShaderWeave
