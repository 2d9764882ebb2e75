set_option autoImplicit false

/-!
# Symbols

Names are compared and put in order as numbers: an **interner** hands out a symbol for each name, and
hands out the same one whenever the name comes up again. Which symbols it hands out is up to the
interner, and depends on which names have come up before.

## Main definitions

* `ShaderWeave.Interner` — an interner.
* `ShaderWeave.Lexicon` — the names that have come up, in order.
* `ShaderWeave.Lexicon.interner` — the interner that numbers names as they come up.

## Main results

* `ShaderWeave.Interner.symbol?_inj` — a symbol is that of one name.
-/

namespace ShaderWeave

/-! ### Interners -/

/-- **An interner**, with states of a type. -/
structure Interner (σ : Type) where
  /-- The symbol of a name that has one. -/
  symbol? : σ → String → Option Nat
  /-- The symbol of a name, which is given one if it has none. -/
  intern : σ → String → σ × Nat
  /-- The name of a symbol. -/
  name? : σ → Nat → Option String
  /-- Interning a name gives no other name a symbol. -/
  symbol?_intern : ∀ st name other, symbol? (intern st name).1 other =
    if other = name then some (intern st name).2 else symbol? st other
  /-- A name keeps its symbol. -/
  intern_of_symbol? : ∀ {st name key}, symbol? st name = some key → (intern st name).2 = key
  name?_eq_some_iff : ∀ {st name key}, name? st key = some name ↔ symbol? st name = some key

namespace Interner

variable {σ : Type} (I : Interner σ) {st : σ} {name other : String} {key : Nat}

/-- **A symbol is that of one name.** -/
theorem symbol?_inj (h : I.symbol? st name = some key) (h' : I.symbol? st other = some key) :
    name = other :=
  Option.some.inj ((I.name?_eq_some_iff.2 h).symm.trans (I.name?_eq_some_iff.2 h'))

/-- A name that was interned is found under the symbol it was given. -/
@[simp] theorem symbol?_intern_self : I.symbol? (I.intern st name).1 name = some (I.intern st name).2 := by
  rw [I.symbol?_intern, if_pos rfl]

/-- Symbols stay when a name is interned. -/
theorem symbol?_intern_of_some (h : I.symbol? st other = some key) :
    I.symbol? (I.intern st name).1 other = some key := by
  rw [I.symbol?_intern]
  split
  · rename_i hother
    rw [I.intern_of_symbol? (hother ▸ h)]
  · exact h

end Interner

/-! ### Names in the order in which they come up -/

/-- **The names that have come up**, in order. -/
structure Lexicon where
  names : List String
  nodup : names.Nodup

namespace Lexicon

/-- The lexicon without names. -/
def empty : Lexicon :=
  ⟨[], List.nodup_nil⟩

/-- The symbol of a name is the number of names that came up before it. -/
def symbol? (l : Lexicon) (name : String) : Option Nat :=
  l.names.idxOf? name

/-- The name of a symbol. -/
def name? (l : Lexicon) (key : Nat) : Option String :=
  l.names[key]?

/-- A name behind all others. -/
def add (l : Lexicon) (name : String) (h : name ∉ l.names) : Lexicon where
  names := l.names ++ [name]
  nodup := by
    refine List.nodup_append.2 ⟨l.nodup, by simp, fun a ha b hb he => h ?_⟩
    rwa [← List.mem_singleton.1 hb, ← he]

/-- The symbol of a name, which is put behind all others if it has not come up. -/
def intern (l : Lexicon) (name : String) : Lexicon × Nat :=
  if h : name ∈ l.names then (l, l.names.idxOf name) else (l.add name h, l.names.length)

/-- A name stands at a place of the lexicon if and only if the place is the symbol found for it. -/
theorem name?_eq_some_iff {l : Lexicon} {name : String} {key : Nat} :
    l.name? key = some name ↔ l.symbol? name = some key := by
  rw [name?, symbol?, List.getElem?_eq_some_iff, List.idxOf?_eq_some_iff]
  constructor
  · rintro ⟨h, rfl⟩
    refine ⟨h, rfl, fun j hj he => ?_⟩
    exact Nat.ne_of_lt hj ((List.getElem_inj l.nodup).1 he)
  · rintro ⟨h, he, -⟩
    exact ⟨h, he⟩

/-- The name that is interned has the symbol that is handed out. -/
theorem name?_intern (l : Lexicon) (name : String) :
    (l.intern name).1.name? (l.intern name).2 = some name := by
  unfold intern
  split
  · rename_i h
    exact List.getElem?_eq_some_iff.2 ⟨List.idxOf_lt_length_of_mem h, List.getElem_idxOf _⟩
  · simp [add, name?]

/-- The symbols of other names stay. -/
theorem symbol?_intern_of_ne {l : Lexicon} {name other : String} (h : other ≠ name) :
    (l.intern name).1.symbol? other = l.symbol? other := by
  unfold intern
  split
  · rfl
  · refine Option.ext fun key => ?_
    rw [← name?_eq_some_iff, ← name?_eq_some_iff, name?, name?, add, List.getElem?_append]
    split
    · rfl
    · rename_i hkey
      have hlast : [name][key - l.names.length]? ≠ some other := fun he =>
        h (List.mem_singleton.1 (List.mem_of_getElem? he))
      simp [hlast, Nat.le_of_not_lt hkey]

/-- A name that has a symbol keeps it when it is interned again. -/
theorem intern_of_symbol? {l : Lexicon} {name : String} {key : Nat} (h : l.symbol? name = some key) :
    (l.intern name).2 = key := by
  have hname := name?_eq_some_iff.2 h
  have hmem : name ∈ l.names := List.mem_of_getElem? hname
  have hkey := name?_intern l name
  rw [intern, dif_pos hmem] at hkey ⊢
  exact Option.some.inj ((name?_eq_some_iff.1 hkey).symm.trans h)

/-- **The interner that numbers names as they come up.** -/
def interner : Interner Lexicon where
  symbol? := symbol?
  intern := intern
  name? := name?
  symbol?_intern := by
    intro l name other
    split
    · rename_i h
      rw [h]
      exact name?_eq_some_iff.1 (name?_intern l name)
    · rename_i h
      exact symbol?_intern_of_ne h
  intern_of_symbol? := intern_of_symbol?
  name?_eq_some_iff := name?_eq_some_iff

end Lexicon

end ShaderWeave
