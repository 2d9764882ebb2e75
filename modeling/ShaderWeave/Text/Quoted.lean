import ShaderWeave.Text.Basic
import ShaderWeave.Text.Unprintable

set_option autoImplicit false

/-!
# Quoted names

Lists of names in notices are written with each name between quotes, so that any name can be told
apart from the list around it.

## Main definitions

* `ShaderWeave.Text.quoteChar` — a character between quotes.
* `ShaderWeave.Text.quoteList` — a list of names.
-/

namespace ShaderWeave

namespace Text

/-- The hexadecimal digits of a code point, without leading zeros. -/
def hexCode (c : Char) : Text :=
  Nat.toDigits 16 c.toNat

/-- **A character between quotes.** The quote and the backslash are escaped, and what would not be
seen is given by its number. -/
def quoteChar (c : Char) : Text :=
  if c = '\x00' then ['\\', '0']
  else if c = '\t' then ['\\', 't']
  else if c = '\n' then ['\\', 'n']
  else if c = '\r' then ['\\', 'r']
  else if c = '"' || c = '\\' then ['\\', c]
  else if c.toNat < 0x20 || isUnprintable c then ['\\', 'u', '{'] ++ hexCode c ++ ['}']
  else [c]

/-- A name between quotes. -/
def quoteName (name : String) : Text :=
  '"' :: (name.toList.flatMap quoteChar ++ ['"'])

/-- **A list of names**, each between quotes, in brackets and with commas. -/
def quoteList (names : List String) : String :=
  String.ofList ('[' :: (join [',', ' '] (names.map quoteName) ++ [']']))

end Text

end ShaderWeave
