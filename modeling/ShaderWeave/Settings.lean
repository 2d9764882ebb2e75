import ShaderWeave.Json.Basic

set_option autoImplicit false

/-!
# Settings

The settings with which all shaders of a context are built.

## Main definitions

* `ShaderWeave.Settings` — the settings; `ShaderWeave.Settings.default` is what is usual.
* `ShaderWeave.Settings.toJson`, `ShaderWeave.Settings.ofJson?` — settings as JSON.
-/

namespace ShaderWeave

/-- **Settings.** -/
structure Settings where
  /-- Whether missing and defective chunks are errors. -/
  strict : Bool
  /-- Whether finished programs are to be checked by a parser of the shading language. There is none
  here, so it makes no difference. -/
  validate : Bool
  /-- Whether finished programs are formatted. -/
  formatOutput : Bool
  /-- The spaces for each level of braces. -/
  indentWidth : Nat
  /-- Whether finished programs are written to the log. -/
  debugPrint : Bool
  deriving DecidableEq, Repr

namespace Settings

/-- The usual settings: tolerant, with formatted output. -/
def default : Settings :=
  ⟨false, false, true, 4, false⟩

/-- **Settings as JSON.** -/
def toJson (s : Settings) : Json :=
  .record [("strict", .bool s.strict), ("validate", .bool s.validate),
    ("format_output", .bool s.formatOutput), ("indent_width", .ofInt s.indentWidth),
    ("debug_print", .bool s.debugPrint)]

/-- The names of the settings, in order. -/
def names : List String :=
  ["strict", "validate", "format_output", "indent_width", "debug_print"]

/-- A truth value. -/
def bool? : Json → Option Bool
  | .bool b => some b
  | _ => none

/-- A natural number of 64 bits, written as an integer without a sign. -/
def width? : Json → Option Nat
  | .number n =>
    if n.negative = false ∧ n.fraction = [] ∧ n.exponent = none ∧ n.whole < UInt64.size then some n.whole
    else none
  | _ => none

/-- Settings with one of them changed. Other names than those of settings are passed over. -/
def set? (s : Settings) (name : String) (value : Json) : Option Settings :=
  if name = "strict" then (bool? value).map fun b => { s with strict := b }
  else if name = "validate" then (bool? value).map fun b => { s with validate := b }
  else if name = "format_output" then (bool? value).map fun b => { s with formatOutput := b }
  else if name = "indent_width" then (width? value).map fun n => { s with indentWidth := n }
  else if name = "debug_print" then (bool? value).map fun b => { s with debugPrint := b }
  else some s

/-- Settings changed one after the other. -/
def setAll? (changes : List (String × Json)) : Option Settings :=
  changes.foldlM (fun s p => s.set? p.1 p.2) default

/-- **The settings that a JSON value stands for**: an object with settings by name, none of them
twice, or an array of settings in order. What is missing is as usual. -/
def ofJson? : Json → Option Settings
  | .object members => do
    let changes ← members.mapM fun p => p.1.map fun name => (name, p.2)
    guard ((changes.map Prod.fst).filter (· ∈ names)).Nodup
    setAll? changes
  | .array items => do
    guard (items.length ≤ names.length)
    setAll? (names.zip items)
  | _ => none

end Settings

end ShaderWeave
