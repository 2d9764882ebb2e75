import ShaderWeave.Number.Numeral

set_option autoImplicit false

/-!
# JSON values and their text

Configurations, settings and flags are written as JSON in a compact form: no white space, members in
the order of the value, no escapes but the necessary ones, and a sign on every exponent.

## Main definitions

* `ShaderWeave.Json` — a JSON value.
* `ShaderWeave.Json.render` — its compact text.
-/

namespace ShaderWeave

open Number

/-- **A JSON value.** Members of an object keep their order, and a key may occur twice. A string that
has an unpaired surrogate among its escapes denotes no text; all such strings are the one value
`none`. -/
inductive Json where
  | null
  | bool (b : Bool)
  | number (n : Numeral)
  | string (s : Option String)
  | array (items : List Json)
  | object (members : List (Option String × Json))

namespace Json

/-- The string of a text. -/
def ofString (s : String) : Json :=
  .string (some s)

/-- The integer of a value. -/
def ofInt (n : Int) : Json :=
  .number (.ofInt n)

/-- The value if there is one, and null otherwise. -/
def ofOption {α : Type} (f : α → Json) : Option α → Json
  | some a => f a
  | none => .null

/-- The object with the given members. -/
def record (members : List (String × Json)) : Json :=
  .object (members.map fun p => (some p.1, p.2))

/-! ### Strings -/

/-- The hexadecimal digit of a number below 16, in lower case. -/
def hexChar (n : Nat) : Char :=
  if n < 10 then Char.ofNat (48 + n) else Char.ofNat (87 + n)

/-- **A character inside a string.** The quote, the backslash and the control characters below the
space are escaped, and no others. -/
def escape (c : Char) : Text :=
  if c = '"' then ['\\', '"']
  else if c = '\\' then ['\\', '\\']
  else if c = '\x08' then ['\\', 'b']
  else if c = '\t' then ['\\', 't']
  else if c = '\n' then ['\\', 'n']
  else if c = '\x0c' then ['\\', 'f']
  else if c = '\r' then ['\\', 'r']
  else if c.toNat < 0x20 then
    ['\\', 'u', '0', '0', hexChar (c.toNat / 16), hexChar (c.toNat % 16)]
  else [c]

/-- A text between quotes. -/
def quote (s : Text) : Text :=
  '"' :: (s.flatMap escape ++ ['"'])

/-- A string value between quotes. One that denotes no text is written as a lone surrogate. -/
def quoteString : Option String → Text
  | some s => quote s.toList
  | none => "\"\\ud800\"".toList

/-! ### Values -/

mutual

/-- **The compact text of a value.** -/
def render : Json → Text
  | .null => "null".toList
  | .bool true => "true".toList
  | .bool false => "false".toList
  | .number n => n.toText true
  | .string s => quoteString s
  | .array [] => "[]".toList
  | .array (v :: vs) => '[' :: (render v ++ renderItems vs)
  | .object [] => ['{', '}']
  | .object ((k, v) :: ms) => '{' :: (quoteString k ++ ':' :: (render v ++ renderMembers ms))

/-- The items of an array behind the first one, and its bracket. -/
def renderItems : List Json → Text
  | [] => [']']
  | v :: vs => ',' :: (render v ++ renderItems vs)

/-- The members of an object behind the first one, and its brace. -/
def renderMembers : List (Option String × Json) → Text
  | [] => ['}']
  | (k, v) :: ms => ',' :: (quoteString k ++ ':' :: (render v ++ renderMembers ms))

end

/-- The compact text of a value as a string. -/
def toText (v : Json) : String :=
  String.ofList (render v)

end Json

end ShaderWeave
