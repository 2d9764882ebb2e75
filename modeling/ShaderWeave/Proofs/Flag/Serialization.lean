import ShaderWeave.Proofs.Flag.History
import ShaderWeave.Proofs.Json.Reading
import ShaderWeave.Proofs.Text.ByteOrder

set_option autoImplicit false

/-!
# Flags as JSON text

A truth value, an integer and a text are each read back as what they were: an integer has neither a
point nor an exponent, and a text stands between quotes, whatever it looks like. So a store without
numbers is read back from its text, and the text is that of the values under their names, in the order of
the bytes of the names.

## Main results

* `ShaderWeave.FlagValue.ofJson?_toJson`, `ShaderWeave.Flags.ofJson?_toJson` — values and flags are read
  back.
* `ShaderWeave.FlagStore.Holds.ofText?_toText` — a store is read back from its text.
* `ShaderWeave.FlagStores.run_text` — the text of a store, whatever its history.
-/

namespace ShaderWeave

open Number

/-! ### Values -/

namespace FlagValue

/-- **An integer is read back** from its numeral. -/
theorem ofNumeral?_ofInt (n : Int64) : ofNumeral? (.ofInt n.toInt) = some (.int n) := by
  let numeral := Numeral.ofInt n.toInt
  have hvalue : (if numeral.negative = true then -(numeral.whole : ℤ) else numeral.whole) =
      n.toInt := by
    simp only [numeral, Numeral.ofInt, decide_eq_true_eq]
    split_ifs <;> omega
  have hzero : ¬(numeral.negative = true ∧ numeral.whole = 0) := by
    simp only [numeral, Numeral.ofInt, decide_eq_true_eq]
    omega
  change ofNumeral? numeral = some (.int n)
  simp only [ofNumeral?, hvalue]
  rw [if_pos ⟨rfl, rfl, hzero, n.minValue_le_toInt, n.toInt_le⟩, Int64.ofInt_toInt]

/-- **A value that is no number is read back.** -/
theorem ofJson?_toJson {v : FlagValue} (h : ∀ x, v ≠ .float x) : ofJson? v.toJson = some v := by
  cases v with
  | bool b => rfl
  | int n => exact ofNumeral?_ofInt n
  | float x => exact absurd rfl (h x)
  | text s => rfl

end FlagValue

/-! ### Flags -/

namespace Table

variable {α : Type}

/-- A table is that of its entries. -/
theorem ofList_entries (t : Table α) : ofList t.entries = t := by
  refine ext_get? fun key => ?_
  rw [ofList, get?_foldl_insert empty t.entries key t.sorted, get?_empty, Option.or_none]
  rfl

end Table

namespace Flags

/-- Settings are read back from the members that they are written as. -/
theorem mapM_setting? {es : List (String × FlagValue)} (h : ∀ p ∈ es, ∀ x, p.2 ≠ .float x) :
    ((es.map fun p => (p.1, p.2.toJson)).map fun p => (some p.1, p.2)).mapM setting? = some es := by
  induction es with
  | nil => rfl
  | cons p es ih =>
    obtain ⟨hp, hes⟩ := List.forall_mem_cons.1 h
    have hsetting : setting? (some p.1, p.2.toJson) = some p := by
      simp [setting?, FlagValue.ofJson?_toJson hp]
    rw [List.map_cons, List.map_cons, List.mapM_cons, hsetting, ih hes]
    rfl

/-- **Flags without numbers are read back.** -/
theorem ofJson?_toJson {flags : Flags} (h : ∀ name x, flags.get? name ≠ some (.float x)) :
    ofJson? flags.toJson = some flags := by
  have hentries : ∀ p ∈ flags.entries, ∀ x, p.2 ≠ .float x := fun p hp x hx =>
    h p.1 x (by rw [← hx]; exact Table.mem_entries.1 hp)
  rw [toJson, Json.record, ofJson?, mapM_setting? hentries, Option.map_some, Table.ofList_entries]

/-- Flags without numbers are read back from their text. -/
theorem parse?_toText {flags : Flags} (h : ∀ name x, flags.get? name ≠ some (.float x)) :
    (Json.parse? flags.toJson.toText.toList).bind ofJson? = some flags := by
  rw [Json.toText, String.toList_ofList, Json.parse?_render, Option.bind_some, ofJson?_toJson h]

end Flags

/-! ### Stores -/

namespace FlagStore

variable {σ τ : Type} {I : Interner σ} {J : Interner τ} {st : σ} {st' : τ} {s s' : FlagStore}
variable {values values' : String → Option FlagValue}

/-- Stores that hold the same values have the same flags. -/
theorem Holds.toFlags_eq (h : Holds I st s values) (h' : Holds J st' s' values')
    (hvalues : ∀ name, values name = values' name) : s.toFlags I st = s'.toFlags J st' :=
  Table.ext_get? fun name => by rw [h.get?_toFlags, h'.get?_toFlags, hvalues]

/-- **A store is read back from its text**: what is read holds the same values, whichever symbols the
names have there. -/
theorem Holds.ofText?_toText (h : Holds I st s values)
    (hvalues : ∀ name x, values name ≠ some (.float x)) (J : Interner τ) (st' : τ) :
    ∃ pairs, ofText? J st' (s.toText I st) = some (FlagStore.collect J st' pairs) ∧
      Holds J (FlagStore.collect J st' pairs).1 (FlagStore.collect J st' pairs).2 values := by
  refine ⟨(s.toFlags I st).entries, ?_, (holds_collect _).congr fun name => ?_⟩
  · rw [ofText?, toText, Flags.parse?_toText fun name x => by rw [h.get?_toFlags]; exact hvalues name x]
    rfl
  · rw [← get?_ofList, Table.ofList_entries, h.get?_toFlags]

end FlagStore

/-! ### Histories -/

namespace FlagStores

open FlagStep

variable {σ : Type} (I : Interner σ) (st : σ)

/-- **The text of a store, whatever its history.** A store without numbers is read back from its text:
at any later time as a store that is equal to it, and with other symbols as one with the same values. The
text depends on the values alone, and has them under their names in the order of the UTF-8 bytes of the
names. -/
theorem run_text (h : List FlagStep) (i : ℕ) :
    let w := run I st h
    let text := (w.store i).toText I w.symbols
    ((∀ name x, value? h i name ≠ some (.float x)) →
      (∀ later, ∃ names,
        FlagStore.ofText? I (run I st (later ++ h)).symbols text = some (names, w.store i)) ∧
      ∀ (τ : Type) (J : Interner τ) (st' : τ), ∃ c, FlagStore.ofText? J st' text = some c ∧
        ∀ name, c.2.get? J c.1 name = value? h i name) ∧
    (∀ (τ : Type) (J : Interner τ) (st' : τ) (h' : List FlagStep) (j : ℕ),
      (∀ name, value? h i name = value? h' j name) →
        text = ((run J st' h').store j).toText J (run J st' h').symbols) ∧
    ∃ members : List (String × FlagValue),
      text = (Json.record (members.map fun p => (p.1, p.2.toJson))).toText ∧
      (∀ p, p ∈ members ↔ value? h i p.1 = some p.2) ∧
      members.Pairwise fun p q => p.1.toUTF8.data.toList < q.1.toUTF8.data.toList := by
  intro w text
  have hw : (w.store i).Holds I w.symbols (value? h i) := holds_run I st h i
  refine ⟨fun hvalues => ⟨fun later => ?_, fun τ J st' => ?_⟩, fun τ J st' h' j hvalues => ?_, ?_⟩
  · obtain ⟨pairs, hread, hpairs⟩ := hw.ofText?_toText hvalues I (run I st (later ++ h)).symbols
    have hkept := (holds_of_run hw later).collect pairs
    have hsame := (hpairs.eq_iff hkept).2 fun _ => rfl
    exact ⟨_, hread.trans (congrArg some (Prod.ext rfl hsame))⟩
  · obtain ⟨pairs, hread, hpairs⟩ := hw.ofText?_toText hvalues J st'
    exact ⟨_, hread, hpairs.get?_eq⟩
  · have hflags := hw.toFlags_eq (holds_run J st' h' j) hvalues
    simp only [text, FlagStore.toText, hflags]
  · refine ⟨((w.store i).toFlags I w.symbols).entries, rfl, fun p => ?_, ?_⟩
    · rw [← hw.get?_toFlags]
      exact Table.mem_entries
    · exact ((w.store i).toFlags I w.symbols).sorted.imp fun hlt => Text.bytes_lt_of_nameBefore hlt

/-- A history that writes texts which look like other values, and keys that are no words. -/
def oddHistory : List FlagStep :=
  [.set 0 "\u00e9" (.text "42"), .set 0 "\"" (.int (-7)), .remove 0 "on", .set 0 "on" (.bool false),
    .set 0 "" (.text "true\n")]

/-- Texts that look like other values stay texts. -/
theorem run_text_odd :
    let w := run Lexicon.interner .empty oddHistory
    let text := (w.store 0).toText Lexicon.interner w.symbols
    (∀ name x, value? oddHistory 0 name ≠ some (.float x)) ∧
      text = "\x7b\"\":\"true\\n\",\"\\\"\":-7,\"\u00e9\":\"42\"\x7d" ∧
      ∃ names, FlagStore.ofText? Lexicon.interner w.symbols text = some (names, w.store 0) := by
  have hvalues : ∀ name x, value? oddHistory 0 name ≠ some (.float x) := by
    intro name x
    simp only [oddHistory, value?]
    split_ifs <;> simp
  exact ⟨hvalues, by decide +kernel,
    ((run_text Lexicon.interner .empty oddHistory 0).1 hvalues).1 []⟩

end FlagStores

end ShaderWeave
