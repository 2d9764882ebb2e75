import Mathlib.Data.Fin.Basic
import ShaderWeave.Json.Reader

set_option autoImplicit false

/-!
# Written JSON is read back

The compact text of a JSON value can be cut in one way only: the reader finds the value again,
whatever follows the text, as long as that does not prolong a number. So different values have
different texts.

## Main definitions

* `ShaderWeave.Json.EndsNumeral` — the text does not prolong a numeral before it.
* `ShaderWeave.Json.ValuesRead`, `ItemsRead`, `MembersRead` — what is read back with some fuel.

## Main results

* `ShaderWeave.Json.readString_quoteString` — a quoted string is read back.
* `ShaderWeave.Json.readNumeral_toText` — a numeral is read back.
* `ShaderWeave.Json.reads_render` — values, items and members are read back.
* `ShaderWeave.Json.parse?_render` — the text of a value denotes that value.
* `ShaderWeave.Json.toText_injective` — values with one text are equal.
-/

namespace ShaderWeave

open Number

namespace Json

/-! ### Strings -/

/-- A hexadecimal digit is read as its number. -/
theorem hexValue?_hexChar {n : ℕ} (h : n < 16) : hexValue? (hexChar n) = some n := by
  revert n
  decide

/-- A character below the space is read back from its four digits. -/
theorem hexCode?_of_lt {n : ℕ} (h : n < 0x20) :
    hexCode? '0' '0' (hexChar (n / 16)) (hexChar (n % 16)) = some n := by
  have hzero : hexValue? '0' = some 0 := by decide
  have hhigh : hexValue? (hexChar (n / 16)) = some (n / 16) := hexValue?_hexChar (by omega)
  have hlow : hexValue? (hexChar (n % 16)) = some (n % 16) := hexValue?_hexChar (by omega)
  simp only [hexCode?, hzero, hhigh, hlow, Option.bind_eq_bind, Option.bind_some, Option.pure_def,
    Option.some.injEq]
  omega

/-- The code of a control character is that character, not a surrogate. -/
theorem ofCode_of_lt {c : Char} (h : c.toNat < 0x20) : StringUnit.ofCode c.toNat = .char c := by
  rw [StringUnit.ofCode, if_neg (by omega), Char.ofNat_toNat]

/-- **An escaped character is read as one unit.** -/
theorem readUnits_escape (c : Char) (s : Text) :
    readUnits (escape c ++ s) = (readUnits s).map fun p => (.char c :: p.1, p.2) := by
  unfold escape
  split_ifs with hquote hback hb ht hn hf hr hcontrol
  · simp [hquote, readUnits, unescape?]
  · simp [hback, readUnits, unescape?]
  · simp [hb, readUnits, unescape?]
  · simp [ht, readUnits, unescape?]
  · simp [hn, readUnits, unescape?]
  · simp [hf, readUnits, unescape?]
  · simp [hr, readUnits, unescape?]
  · simp only [List.cons_append, List.nil_append, readUnits, hexCode?_of_lt hcontrol,
      ofCode_of_lt hcontrol]
  · rw [List.cons_append, List.nil_append, readUnits]
    · rw [if_neg (by simp [hback, hcontrol])]
    all_goals simp [hquote, hback]

/-- The characters of an escaped string are read back up to its closing quote. -/
theorem readUnits_flatMap_escape (s rest : Text) :
    readUnits (s.flatMap escape ++ '"' :: rest) = some (s.map .char, rest) := by
  induction s with
  | nil => simp [readUnits]
  | cons c s ih =>
    rw [List.flatMap_cons, List.append_assoc, readUnits_escape, ih]
    rfl

/-- Units that are all characters make up their text. -/
theorem joinUnits_map_char (s : Text) : joinUnits (s.map .char) = some s := by
  induction s with
  | nil => rfl
  | cons c s ih => rw [List.map_cons, joinUnits, ih, Option.map_some]

/-- **A quoted string is read back**, whatever follows it. -/
theorem readString_quoteString (k : Option String) :
    ∃ body, quoteString k = '"' :: body ∧
      ∀ rest, readString (body ++ rest) = some (k, rest) := by
  cases k with
  | none =>
    refine ⟨"\\ud800\"".toList, rfl, fun rest => ?_⟩
    have hcode : hexCode? 'd' '8' '0' '0' = some 0xd800 := by decide
    simp [readString, readUnits, hcode, StringUnit.ofCode, joinUnits]
  | some s =>
    refine ⟨s.toList.flatMap escape ++ ['"'], rfl, fun rest => ?_⟩
    rw [List.append_assoc, readString, List.singleton_append, readUnits_flatMap_escape,
      Option.map_some, joinUnits_map_char, Option.map_some, String.ofList_toList]

/-! ### Numbers -/

/-- **A text does not prolong a numeral before it**: it does not start with a digit, a point or the
mark of an exponent. -/
def EndsNumeral (s : Text) : Prop :=
  ∀ c t, s = c :: t → digit? c = none ∧ c ≠ '.' ∧ c ≠ 'e' ∧ c ≠ 'E'

/-- The end of the text does not prolong a numeral. -/
theorem endsNumeral_nil : EndsNumeral [] := by
  intro c t h
  cases h

/-- The digits of a number have no leading zeros. -/
theorem digits_ne_zero_cons (n : ℕ) (d : Digit) (ds : List Digit) : digits n ≠ 0 :: d :: ds := by
  fun_induction digits n generalizing d ds with
  | case1 n h => simp
  | case2 n h ih =>
    intro heq
    cases hd : digits (n / 10) with
    | nil => exact digits_ne_nil _ hd
    | cons a as =>
      rw [hd, List.cons_append, List.cons.injEq] at heq
      cases as with
      | nil =>
        have hval := ofDigits_digits (n / 10)
        rw [hd, heq.1] at hval
        simp [ofDigits] at hval
        omega
      | cons b bs => exact ih b bs (by rw [hd, heq.1])

/-- The fraction of a numeral is read back. -/
theorem readFraction_text (ds : List Digit) {rest : Text}
    (h : ∀ c s, rest = c :: s → digit? c = none ∧ c ≠ '.') :
    readFraction ((if ds = [] then [] else '.' :: text ds) ++ rest) = some (ds, rest) := by
  split_ifs with hds
  · rw [List.nil_append, hds]
    cases rest with
    | nil => rfl
    | cons c s =>
      rw [readFraction]
      rintro t heq
      exact (h c s rfl).2 (List.cons.inj heq).1
  · obtain ⟨d, ds, rfl⟩ := List.exists_cons_of_ne_nil hds
    rw [List.cons_append, readFraction, readDigits_text _ fun c s hcs => (h c s hcs).1]

/-- A number as text starts with a digit. -/
theorem decimal_eq_cons (n : ℕ) : ∃ (d : Digit) (t : Text), decimal n = d.char :: t := by
  obtain ⟨d, ds, hds⟩ := List.exists_cons_of_ne_nil (digits_ne_nil n)
  exact ⟨d, text ds, by rw [decimal, hds]; rfl⟩

/-- A digit is no sign. -/
theorem char_ne_sign (d : Digit) : d.char ≠ '-' ∧ d.char ≠ '+' := by
  revert d
  decide

/-- The exponent of a numeral as text. -/
def exponentText (plus : Bool) : Option ℤ → Text
  | none => []
  | some e => 'e' :: (if e < 0 then ['-'] else if plus then ['+'] else []) ++ decimal e.natAbs

/-- The exponent of a numeral is read back. -/
theorem readExponent_exponentText (plus : Bool) (e : Option ℤ) {rest : Text}
    (h : EndsNumeral rest) :
    Numeral.readExponent (exponentText plus e ++ rest) = some (e, rest) := by
  cases e with
  | none =>
    cases rest with
    | nil => rfl
    | cons c s =>
      obtain ⟨-, -, he, hE⟩ := h c s rfl
      simp [exponentText, Numeral.readExponent, he, hE]
  | some e =>
    obtain ⟨d, ds, hds⟩ := List.exists_cons_of_ne_nil (digits_ne_nil e.natAbs)
    have hread : readDigits (decimal e.natAbs ++ rest) = (digits e.natAbs, rest) :=
      readDigits_text _ fun c s hcs => (h c s hcs).1
    have hval := ofDigits_digits e.natAbs
    rw [hds] at hread hval
    simp only [exponentText, List.cons_append, Numeral.readExponent, List.append_assoc,
      decide_true, Bool.true_or, if_true]
    rcases lt_or_ge e 0 with hneg | hpos
    · have habs : -(e.natAbs : ℤ) = e := by omega
      simp only [if_pos hneg, List.cons_append, List.nil_append, hread, hval, if_true, habs]
    · have habs : (e.natAbs : ℤ) = e := by omega
      cases plus with
      | true =>
        simp [if_neg (not_lt.2 hpos), hread, hval, habs]
      | false =>
        obtain ⟨a, t, hat⟩ := decimal_eq_cons e.natAbs
        obtain ⟨hminus, hplus⟩ := char_ne_sign a
        rw [hat, List.cons_append] at hread
        simp [if_neg (not_lt.2 hpos), hat, hminus, hplus, hread, hval, habs]

/-- A numeral is its sign, its whole part, its fraction and its exponent, in this order. -/
theorem toText_eq (plus : Bool) (n : Numeral) :
    n.toText plus = (if n.negative then ['-'] else []) ++ (decimal n.whole ++
      ((if n.fraction = [] then [] else '.' :: text n.fraction) ++
        exponentText plus n.exponent)) := by
  unfold Numeral.toText
  cases n.exponent <;> simp [exponentText, List.append_assoc]

/-- Behind the fraction of a numeral comes neither a digit nor a point. -/
theorem exponentText_append_ne (plus : Bool) (e : Option ℤ) {rest : Text} (h : EndsNumeral rest) :
    ∀ c s, exponentText plus e ++ rest = c :: s → digit? c = none ∧ c ≠ '.' := by
  intro c s hcs
  cases e with
  | none =>
    obtain ⟨hdigit, hpoint, -⟩ := h c s hcs
    exact ⟨hdigit, hpoint⟩
  | some e =>
    rw [exponentText, List.cons_append, List.cons_append, List.cons.injEq] at hcs
    rw [← hcs.1]
    decide

/-- Behind the whole of a numeral comes no digit. -/
theorem fraction_append_ne (plus : Bool) (n : Numeral) {rest : Text} (h : EndsNumeral rest) :
    ∀ c s, (if n.fraction = [] then [] else '.' :: text n.fraction) ++
      (exponentText plus n.exponent ++ rest) = c :: s → digit? c = none := by
  intro c s hcs
  split_ifs at hcs with hf
  · exact (exponentText_append_ne plus n.exponent h c s hcs).1
  · rw [List.cons_append, List.cons.injEq] at hcs
    rw [← hcs.1]
    decide

/-- What is written of a numeral behind its sign is read back. -/
theorem readUnsigned_decimal (plus : Bool) (n : Numeral) {rest : Text} (h : EndsNumeral rest) :
    readUnsigned n.negative (decimal n.whole ++
      ((if n.fraction = [] then [] else '.' :: text n.fraction) ++
        (exponentText plus n.exponent ++ rest))) = some (n, rest) := by
  have hdigits := readDigits_text (digits n.whole) (fraction_append_ne plus n h)
  have hval := ofDigits_digits n.whole
  rw [readUnsigned, decimal, hdigits]
  split
  · rename_i heq
    exact absurd (congrArg Prod.fst heq) (digits_ne_nil _)
  · rename_i d ds _ heq
    exact absurd (congrArg Prod.fst heq) (digits_ne_zero_cons _ d ds)
  · rename_i ds r _ _ heq
    obtain ⟨rfl, rfl⟩ := Prod.mk.inj heq
    rw [readFraction_text _ (exponentText_append_ne plus n.exponent h)]
    simp only [Option.bind_eq_bind, Option.bind_some, readExponent_exponentText plus _ h, hval]
    rfl

/-- **A numeral is read back**, in front of whatever does not prolong it. -/
theorem readNumeral_toText (plus : Bool) (n : Numeral) {rest : Text} (h : EndsNumeral rest) :
    readNumeral (n.toText plus ++ rest) = some (n, rest) := by
  have hread := readUnsigned_decimal plus n h
  rw [toText_eq, List.append_assoc, List.append_assoc, List.append_assoc]
  cases hsign : n.negative with
  | true =>
    rw [hsign] at hread
    simpa [readNumeral] using hread
  | false =>
    rw [hsign] at hread
    obtain ⟨d, t, hdt⟩ := decimal_eq_cons n.whole
    rw [hdt, List.cons_append] at hread ⊢
    rw [if_neg Bool.false_ne_true, List.nil_append, readNumeral]
    · exact hread
    · intro s heq
      exact (char_ne_sign d).1 (List.cons.inj heq).1

/-! ### Values -/

/-- No space is skipped in front of a character that is none. -/
theorem skipSpace_cons {c : Char} (h : isSpace c = false) (s : Text) :
    skipSpace (c :: s) = c :: s := by
  simp [skipSpace, h]

/-- A numeral starts with a minus sign or a digit. -/
theorem toText_eq_cons (plus : Bool) (n : Numeral) :
    ∃ c t, n.toText plus = c :: t ∧ (c = '-' ∨ ∃ d : Digit, c = d.char) := by
  obtain ⟨d, t, hdt⟩ := decimal_eq_cons n.whole
  rw [toText_eq, hdt]
  cases n.negative with
  | true => exact ⟨_, _, rfl, .inl rfl⟩
  | false => exact ⟨_, _, rfl, .inr ⟨d, rfl⟩⟩

/-- A digit is neither a space nor a closing bracket. -/
theorem char_ne_bracket (d : Digit) : isSpace d.char = false ∧ d.char ≠ ']' := by
  revert d
  decide

/-- A value does not start with white space, and not with a closing bracket either. -/
theorem render_eq_cons (v : Json) : ∃ c t, render v = c :: t ∧ isSpace c = false ∧ c ≠ ']' := by
  cases v with
  | null => exact ⟨_, _, rfl, by decide, by decide⟩
  | bool b => cases b <;> exact ⟨_, _, rfl, by decide, by decide⟩
  | number n =>
    obtain ⟨c, t, hct, hc⟩ := toText_eq_cons true n
    refine ⟨c, t, hct, ?_⟩
    rcases hc with rfl | ⟨d, rfl⟩
    · decide
    · exact char_ne_bracket d
  | string k =>
    obtain ⟨body, hbody, -⟩ := readString_quoteString k
    exact ⟨_, _, hbody, by decide, by decide⟩
  | array vs => cases vs <;> exact ⟨_, _, rfl, by decide, by decide⟩
  | object ms => cases ms <;> exact ⟨_, _, rfl, by decide, by decide⟩

/-- A digit starts no other value than a number. -/
theorem char_ne_value (d : Digit) : d.char ≠ 'n' ∧ d.char ≠ 't' ∧ d.char ≠ 'f' ∧
    d.char ≠ '"' ∧ d.char ≠ '[' ∧ d.char ≠ '{' := by
  revert d
  decide

/-- A number is read back as a value. -/
theorem readValue_number (n : Numeral) (fuel : ℕ) {rest : Text} (h : EndsNumeral rest) :
    readValue (fuel + 1) (n.toText true ++ rest) = some (.number n, rest) := by
  have hread := readNumeral_toText true n h
  obtain ⟨c, t, hct, hc⟩ := toText_eq_cons true n
  rw [hct, List.cons_append] at hread ⊢
  rcases hc with rfl | ⟨d, rfl⟩
  · simp [readValue, skipSpace_cons, isSpace, hread]
  · obtain ⟨hn, ht, hf, hquote, hbracket, hbrace⟩ := char_ne_value d
    simp [readValue, skipSpace_cons (char_ne_bracket d).1, hn, ht, hf, hquote, hbracket,
      hbrace, hread]

/-- A character that continues no numeral ends it. -/
theorem endsNumeral_cons {c : Char} (s : Text)
    (h : digit? c = none ∧ c ≠ '.' ∧ c ≠ 'e' ∧ c ≠ 'E') : EndsNumeral (c :: s) := by
  intro a t hat
  rw [← (List.cons.inj hat).1]
  exact h

/-- The items that follow in an array start with a comma or its bracket, which end a numeral. -/
theorem endsNumeral_renderItems (vs : List Json) (rest : Text) :
    EndsNumeral (renderItems vs ++ rest) := by
  cases vs with
  | nil => exact endsNumeral_cons _ (by decide)
  | cons v vs => exact endsNumeral_cons _ (by decide)

/-- The members that follow in an object start with a comma or its brace, which end a numeral. -/
theorem endsNumeral_renderMembers (ms : List (Option String × Json)) (rest : Text) :
    EndsNumeral (renderMembers ms ++ rest) := by
  cases ms with
  | nil => exact endsNumeral_cons _ (by decide)
  | cons m ms => exact endsNumeral_cons _ (by decide)

/-- An array is at least closed by its bracket. -/
theorem length_renderItems_pos (vs : List Json) : 0 < (renderItems vs).length := by
  cases vs <;> simp [renderItems]

/-- An object is at least closed by its brace. -/
theorem length_renderMembers_pos (ms : List (Option String × Json)) :
    0 < (renderMembers ms).length := by
  cases ms <;> simp [renderMembers]

/-- With so much fuel, values are read back in front of whatever does not prolong a number. -/
def ValuesRead (fuel : ℕ) : Prop :=
  ∀ (v : Json) (rest : Text), EndsNumeral rest → 2 * (render v).length ≤ fuel →
    readValue fuel (render v ++ rest) = some (v, rest)

/-- With so much fuel, items are read back through their bracket. -/
def ItemsRead (fuel : ℕ) : Prop :=
  ∀ (v : Json) (vs : List Json) (rest : Text), 2 * (render v ++ renderItems vs).length ≤ fuel →
    readItems fuel (render v ++ renderItems vs ++ rest) = some (v :: vs, rest)

/-- With so much fuel, members are read back through their brace. -/
def MembersRead (fuel : ℕ) : Prop :=
  ∀ (k : Option String) (v : Json) (ms : List (Option String × Json)) (rest : Text),
    2 * (quoteString k ++ ':' :: (render v ++ renderMembers ms)).length ≤ fuel →
    readMembers fuel (quoteString k ++ ':' :: (render v ++ renderMembers ms) ++ rest) =
      some ((k, v) :: ms, rest)

/-- Values are read back with one unit of fuel more than their items and members. -/
theorem valuesRead_succ {n : ℕ} (hitems : ItemsRead n) (hmembers : MembersRead n) :
    ValuesRead (n + 1) := by
  intro v rest hrest hfuel
  match v with
  | .null => simp [render, readValue, skipSpace, isSpace]
  | .bool true => simp [render, readValue, skipSpace, isSpace]
  | .bool false => simp [render, readValue, skipSpace, isSpace]
  | .number a =>
    rw [render]
    exact readValue_number a n hrest
  | .string k =>
    obtain ⟨body, hbody, hread⟩ := readString_quoteString k
    simp [render, readValue, skipSpace, isSpace, hbody, hread]
  | .array [] => simp [render, readValue, skipSpace, isSpace]
  | .array (v :: vs) =>
    rw [render, List.length_cons] at hfuel
    have hread := hitems v vs rest (by omega)
    obtain ⟨c, t, hct, hspace, hbracket⟩ := render_eq_cons v
    simp only [hct, List.append_assoc, List.cons_append] at hread
    simp [render, readValue, skipSpace_cons (show isSpace '[' = false from rfl), hct,
      skipSpace_cons hspace, hbracket, hread]
  | .object [] => simp [render, readValue, skipSpace, isSpace]
  | .object ((k, v) :: ms) =>
    rw [render, List.length_cons] at hfuel
    have hread := hmembers k v ms rest (by omega)
    obtain ⟨body, hbody, -⟩ := readString_quoteString k
    simp only [hbody, List.append_assoc, List.cons_append] at hread
    simp [render, readValue, skipSpace_cons, isSpace, hbody, hread]

/-- Items are read back with one unit of fuel more than their values and the items behind them. -/
theorem itemsRead_succ {n : ℕ} (hvalues : ValuesRead n) (hitems : ItemsRead n) :
    ItemsRead (n + 1) := by
  intro v vs rest hfuel
  have hlength := length_renderItems_pos vs
  rw [List.length_append] at hfuel
  rw [List.append_assoc, readItems,
    hvalues v (renderItems vs ++ rest) (endsNumeral_renderItems vs rest) (by omega)]
  cases vs with
  | nil => simp [renderItems, skipSpace_cons, isSpace]
  | cons w ws =>
    rw [renderItems, List.length_cons] at hfuel
    have hread := hitems w ws rest (by omega)
    rw [List.append_assoc] at hread
    simp [renderItems, skipSpace_cons, isSpace, hread]

/-- Members are read back with one unit of fuel more than their values and the members behind them. -/
theorem membersRead_succ {n : ℕ} (hvalues : ValuesRead n) (hmembers : MembersRead n) :
    MembersRead (n + 1) := by
  intro k v ms rest hfuel
  have hlength := length_renderMembers_pos ms
  rw [List.length_append, List.length_cons, List.length_append] at hfuel
  have hvalue := hvalues v (renderMembers ms ++ rest) (endsNumeral_renderMembers ms rest)
    (by omega)
  obtain ⟨body, hbody, hkey⟩ := readString_quoteString k
  cases ms with
  | nil =>
    simp only [renderMembers, List.cons_append, List.nil_append] at hvalue
    simp [readMembers, hbody, hkey, hvalue, renderMembers, skipSpace_cons, isSpace]
  | cons m ms =>
    obtain ⟨l, w⟩ := m
    rw [renderMembers, List.length_cons] at hfuel
    have hread := hmembers l w ms rest (by omega)
    simp only [renderMembers, List.append_assoc, List.cons_append] at hvalue hread
    simp [readMembers, hbody, hkey, hvalue, hread, renderMembers, skipSpace_cons, isSpace]

/-- **A value is read back**, and so are items and members, with two units of fuel for each
character.

**Proof sketch.** By induction on the fuel. Each part is followed by a comma or a closing bracket, so
the reader stops where the text of the part ends; the fuel that a call within is left with covers the
text behind it. -/
theorem reads_render (fuel : ℕ) : ValuesRead fuel ∧ ItemsRead fuel ∧ MembersRead fuel := by
  induction fuel with
  | zero =>
    refine ⟨?_, ?_, ?_⟩
    · intro v rest _ hfuel
      obtain ⟨c, t, hct, -⟩ := render_eq_cons v
      rw [hct, List.length_cons] at hfuel
      omega
    · intro v vs rest hfuel
      have hlength := length_renderItems_pos vs
      rw [List.length_append] at hfuel
      omega
    · intro k v ms rest hfuel
      rw [List.length_append, List.length_cons] at hfuel
      omega
  | succ n ih =>
    obtain ⟨hvalues, hitems, hmembers⟩ := ih
    exact ⟨valuesRead_succ hitems hmembers, itemsRead_succ hvalues hitems,
      membersRead_succ hvalues hmembers⟩

/-- **Written JSON is read back.** -/
theorem parse?_render (v : Json) : parse? (render v) = some v := by
  have h := (reads_render (2 * (render v).length + 2)).1 v [] endsNumeral_nil (by omega)
  rw [List.append_nil] at h
  rw [parse?, h]
  rfl

/-- **Values with one text are equal.** -/
theorem toText_injective : Function.Injective toText := by
  intro v w h
  have hrender : render v = render w := String.ofList_injective h
  have hread := parse?_render v
  rw [hrender, parse?_render w] at hread
  exact (Option.some.inj hread).symm

end Json

end ShaderWeave
