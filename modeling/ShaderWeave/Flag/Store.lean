import ShaderWeave.Flag
import ShaderWeave.Json.Reader
import ShaderWeave.Symbol

set_option autoImplicit false

/-!
# Stores of flags

Flags are stored under the symbols of their names, by increasing symbol. A flag is found by **binary
search**, which also says where a flag that is missing belongs; so flags are set and removed where they
stand, and two stores are compared entry by entry.

## Main definitions

* `ShaderWeave.FlagStore` — a store.
* `ShaderWeave.FlagStore.search` — binary search among entries.
* `ShaderWeave.FlagStore.setSymbol`, `getSymbol?`, `removeSymbol`, `merge` — look-up and change under
  symbols.
* `ShaderWeave.FlagStore.set`, `get?`, `remove`, `collect` — look-up and change under names.
* `ShaderWeave.FlagStore.toFlags` — the flags of a store by name.
* `ShaderWeave.FlagStore.toText`, `ShaderWeave.FlagStore.ofText?` — a store as JSON text.
-/

namespace ShaderWeave

/-- **A store of flags**: values under symbols. -/
structure FlagStore where
  entries : List (Nat × FlagValue)
  deriving DecidableEq

namespace FlagStore

/-! ### Binary search -/

/-- **Where a symbol is** among entries: at a place, or missing, with the place where it belongs. -/
inductive Place where
  | found (i : Nat)
  | missing (i : Nat)
  deriving DecidableEq

/-- The place at which the search ends up, among `size` entries from a place on: half of them are left
out at each step. -/
def narrow (es : List (Nat × FlagValue)) (key base size : Nat) (h : base + size ≤ es.length) : Nat :=
  if hsize : 1 < size then
    have hmid : base + size / 2 < es.length := by omega
    if key < es[base + size / 2].1 then narrow es key base (size - size / 2) (by omega)
    else narrow es key (base + size / 2) (size - size / 2) (by omega)
  else base
termination_by size

/-- **Binary search** for a symbol. -/
def search (es : List (Nat × FlagValue)) (key : Nat) : Place :=
  let i := narrow es key 0 es.length (by omega)
  match es[i]? with
  | none => .missing i
  | some (k, _) => if k = key then .found i else .missing (if k < key then i + 1 else i)

/-! ### Under symbols -/

/-- The store without flags. -/
def empty : FlagStore :=
  ⟨[]⟩

/-- The number of flags. -/
def size (s : FlagStore) : Nat :=
  s.entries.length

/-- **Setting a flag** under a symbol: where it is set already its value is replaced. -/
def setSymbol (s : FlagStore) (key : Nat) (value : FlagValue) : FlagStore :=
  match search s.entries key with
  | .found i => ⟨s.entries.modify i fun p => (p.1, value)⟩
  | .missing i => ⟨s.entries.insertIdx i (key, value)⟩

/-- **Look-up** under a symbol. -/
def getSymbol? (s : FlagStore) (key : Nat) : Option FlagValue :=
  match search s.entries key with
  | .found i => s.entries[i]?.map Prod.snd
  | .missing _ => none

/-- **Removing a flag** under a symbol, with the value it had. -/
def removeSymbol (s : FlagStore) (key : Nat) : Option FlagValue × FlagStore :=
  match search s.entries key with
  | .found i => (s.entries[i]?.map Prod.snd, ⟨s.entries.eraseIdx i⟩)
  | .missing _ => (none, s)

/-- **A store with the flags of another one** set over its own. -/
def merge (s other : FlagStore) : FlagStore :=
  other.entries.foldl (fun s p => s.setSymbol p.1 p.2) s

/-! ### Under names -/

variable {σ : Type} (I : Interner σ) (st : σ)

/-- **Setting a flag** under a name, which is given a symbol if it has none. -/
def set (s : FlagStore) (name : String) (value : FlagValue) : σ × FlagStore :=
  ((I.intern st name).1, s.setSymbol (I.intern st name).2 value)

/-- **Look-up** under a name. A name without a symbol has no flag. -/
def get? (s : FlagStore) (name : String) : Option FlagValue :=
  (I.symbol? st name).bind s.getSymbol?

/-- **Removing a flag** under a name, with the value it had. -/
def remove (s : FlagStore) (name : String) : Option FlagValue × FlagStore :=
  match I.symbol? st name with
  | some key => s.removeSymbol key
  | none => (none, s)

/-- **The store of a list of settings**, of which the last one for a name counts. -/
def collect (pairs : List (String × FlagValue)) : σ × FlagStore :=
  pairs.foldl (fun c p => c.2.set I c.1 p.1 p.2) (st, empty)

/-- **The flags of a store** by name. -/
def toFlags (s : FlagStore) : Flags :=
  .ofList (s.entries.filterMap fun p => (I.name? st p.1).map fun name => (name, p.2))

/-- **The text of a store**: its flags by name as JSON. -/
def toText (s : FlagStore) : String :=
  (s.toFlags I st).toJson.toText

/-- **The store that a text stands for**: the flags that are read by name are collected. -/
def ofText? (text : String) : Option (σ × FlagStore) :=
  ((Json.parse? text.toList).bind Flags.ofJson?).map fun flags => collect I st flags.entries

end FlagStore

end ShaderWeave
