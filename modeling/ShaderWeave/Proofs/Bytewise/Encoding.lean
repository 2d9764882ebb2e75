import ShaderWeave.Proofs.Text.ByteOrder

set_option autoImplicit false

/-!
# Texts as UTF-8 bytes

A program that scans a text may hold its UTF-8 bytes and look at one byte after the other. That finds the
characters that the grammar is about, which are all ASCII: an ASCII character is one byte below 128, and
the bytes of the other characters are not below 128. So a byte belongs to a class of ASCII characters, or
to the rest, just as its character does.

## Main definitions

* `ShaderWeave.Text.utf8` — the bytes of a text.
* `ShaderWeave.Bytes.decode?` — the text of bytes that are well-formed UTF-8.
* `ShaderWeave.Bytes.isContinuation` — the bytes that no character starts with.
* `ShaderWeave.Bytes.Agrees` — classes of bytes and of characters that go together.

## Main results

* `ShaderWeave.Bytes.decode?_eq_some_iff` — only the bytes of a text are decoded, and to that text.
* `ShaderWeave.Text.takeWhile_utf8` — bytes of a class are those of the characters of the class.
* `ShaderWeave.Text.head?_utf8_eq_iff` — an ASCII byte is found where its character is.
-/

namespace ShaderWeave

/-- **Bytes**, such as those that a text is encoded with. -/
abbrev Bytes := List UInt8

/-- **The UTF-8 bytes of a text.** -/
def Text.utf8 (s : Text) : Bytes :=
  s.flatMap String.utf8EncodeChar

/-- A text of ASCII characters. -/
def Text.IsAscii (s : Text) : Prop :=
  ∀ a ∈ s, a.toNat < 128

/-- Whether a text is ASCII can be computed. -/
instance decidableIsAscii (s : Text) : Decidable s.IsAscii :=
  List.decidableBAll (fun a : Char => a.toNat < 128) s

namespace Bytes

open Text

/-- **The text of bytes**, if they are well-formed UTF-8. -/
def decode? (bs : Bytes) : Option Text :=
  (String.fromUTF8? bs.toByteArray).map String.toList

/-- **The byte of an ASCII character.** -/
def ascii (c : Char) : UInt8 :=
  c.toUInt8

/-- Bytes that continue a character. No character starts with one. -/
def isContinuation (b : UInt8) : Bool :=
  128 ≤ b.toNat && b.toNat < 192

/-- The bytes of a class of ASCII characters. -/
def ofClass (class_ : Char → Bool) (b : UInt8) : Bool :=
  class_ (Char.ofUInt8 b)

/-- **Classes of bytes and of characters that go together**: a character is in the one exactly if its
bytes are in the other. -/
def Agrees (bytes : UInt8 → Bool) (chars : Char → Bool) : Prop :=
  ∀ c, ∀ b ∈ String.utf8EncodeChar c, bytes b = chars c

end Bytes

namespace Text

open Bytes

/-- The empty text has no bytes. -/
@[simp] theorem utf8_nil : utf8 [] = [] := rfl

/-- The bytes of the first character stand in front of those of the rest. -/
theorem utf8_cons (c : Char) (s : Text) : utf8 (c :: s) = String.utf8EncodeChar c ++ utf8 s :=
  List.flatMap_cons

/-- The bytes of two texts in a row are those of each. -/
@[simp] theorem utf8_append (s t : Text) : utf8 (s ++ t) = utf8 s ++ utf8 t :=
  List.flatMap_append

/-- The size of a text is the number of its bytes. -/
@[simp] theorem length_utf8 (s : Text) : (utf8 s).length = byteSize s := by
  induction s with
  | nil => rfl
  | cons c s ih => rw [utf8_cons, List.length_append, String.length_utf8EncodeChar, ih, byteSize_cons]

/-- Only the empty text has no bytes. -/
@[simp] theorem utf8_eq_nil_iff {s : Text} : utf8 s = [] ↔ s = [] := by
  refine ⟨fun h => ?_, by rintro rfl; rfl⟩
  by_contra hne
  have := byteSize_pos hne
  rw [← length_utf8, h] at this
  exact absurd this (Nat.lt_irrefl 0)

/-! ### The bytes of characters -/

/-- An ASCII character is one byte. -/
theorem utf8EncodeChar_of_ascii {c : Char} (h : c.toNat < 128) :
    String.utf8EncodeChar c = [ascii c] := by
  have hv : c.val.toNat ≤ 127 := Nat.le_of_lt_succ h
  rw [String.utf8EncodeChar, if_pos hv]
  rfl

/-- The other characters have no ASCII bytes. -/
theorem utf8EncodeChar_high {c : Char} (h : 128 ≤ c.toNat) :
    ∀ b ∈ String.utf8EncodeChar c, 128 ≤ b.toNat := by
  have hv : 128 ≤ c.val.toNat := h
  intro b hb
  simp only [String.utf8EncodeChar] at hb
  split_ifs at hb <;> simp only [List.mem_cons, List.not_mem_nil, or_false] at hb
  · omega
  all_goals rcases hb with rfl | rfl | rfl | rfl <;> rw [UInt8.toNat_ofNat'] <;> omega

/-- No character starts with a byte that continues one. -/
theorem exists_utf8EncodeChar (c : Char) :
    ∃ b bs, String.utf8EncodeChar c = b :: bs ∧ Bytes.isContinuation b = false := by
  have hv : c.val.toNat < 0x110000 := by
    have := c.valid
    simp only [UInt32.isValidChar, Nat.isValidChar] at this
    omega
  simp only [String.utf8EncodeChar]
  split_ifs <;> refine ⟨_, _, rfl, ?_⟩ <;>
    simp only [Bytes.isContinuation, UInt8.toNat_ofNat', Bool.and_eq_false_iff,
      decide_eq_false_iff_not] <;> omega

/-- The byte of an ASCII character has its code. -/
theorem toNat_ascii {c : Char} (h : c.toNat < 128) : (ascii c).toNat = c.toNat := by
  have hv : c.val.toNat < 128 := h
  rw [ascii, Char.toUInt8, UInt32.toNat_toUInt8, Nat.mod_eq_of_lt (by omega)]
  rfl

/-- A byte taken as a character keeps its number. -/
theorem toNat_ofUInt8 (b : UInt8) : (Char.ofUInt8 b).toNat = b.toNat :=
  UInt8.toNat_toUInt32 b

/-- The byte of an ASCII character, taken as a character, is that character. -/
theorem ofUInt8_ascii {c : Char} (h : c.toNat < 128) : Char.ofUInt8 (ascii c) = c := by
  apply Char.ext
  apply UInt32.toNat_inj.1
  exact (toNat_ofUInt8 (ascii c)).trans (toNat_ascii h)

/-- ASCII characters with one byte are equal. -/
theorem ascii_inj {a c : Char} (ha : a.toNat < 128) (hc : c.toNat < 128) : ascii c = ascii a ↔ c = a := by
  refine ⟨fun h => ?_, congrArg ascii⟩
  rw [← ofUInt8_ascii hc, h, ofUInt8_ascii ha]

/-- A byte that is not ASCII is that of no ASCII character. -/
theorem ne_ascii_of_high {b : UInt8} {a : Char} (hb : 128 ≤ b.toNat) (ha : a.toNat < 128) :
    b ≠ ascii a := by
  rintro rfl
  rw [toNat_ascii ha] at hb
  omega

end Text

/-! ### Decoding -/

namespace Bytes

open Text

/-- **Exactly the bytes of a text are decoded**, and to that text. -/
theorem decode?_eq_some_iff {bs : Bytes} {s : Text} : decode? bs = some s ↔ utf8 s = bs := by
  have hbytes : ∀ t : Text, (utf8 t).toByteArray = List.utf8Encode t := fun _ => rfl
  constructor
  · intro h
    obtain ⟨t, ht, rfl⟩ := Option.map_eq_some_iff.1 h
    have : t.toByteArray = bs.toByteArray := by
      rw [String.fromUTF8?] at ht
      split at ht
      · rw [← Option.some.inj ht]
        rfl
      · cases ht
    have := congrArg (fun a => a.data.toList) this
    simpa [← String.utf8Encode_toList, ← hbytes] using this
  · rintro rfl
    rw [decode?, hbytes, String.fromUTF8?, dif_pos ⟨s, rfl⟩]
    have : String.fromUTF8 (List.utf8Encode s) ⟨s, rfl⟩ = String.ofList s := rfl
    rw [this, Option.map_some, String.toList_ofList]

/-- The bytes of a text are read back as the text. -/
@[simp] theorem decode?_utf8 (s : Text) : decode? (utf8 s) = some s :=
  decode?_eq_some_iff.2 rfl

/-- Different texts have different bytes. -/
theorem utf8_inj {s t : Text} : utf8 s = utf8 t ↔ s = t := by
  refine ⟨fun h => ?_, congrArg utf8⟩
  rw [← Option.some.injEq, ← decode?_utf8 s, h, decode?_utf8]

end Bytes

/-! ### Classes of bytes -/

namespace Bytes

/-- **The bytes of a class of ASCII characters** go with the class, as they do with one that has all the
characters that are not ASCII. -/
theorem agrees_ofClass {chars : Char → Bool} (others : Bool)
    (h : ∀ c : Char, 128 ≤ c.toNat → chars c = others) : Agrees (ofClass chars) chars := by
  intro c b hb
  rcases Nat.lt_or_ge c.toNat 128 with hc | hc
  · rw [Text.utf8EncodeChar_of_ascii hc, List.mem_singleton] at hb
    rw [hb, ofClass, Text.ofUInt8_ascii hc]
  · have hhigh : 128 ≤ (Char.ofUInt8 b).toNat := by
      rw [Text.toNat_ofUInt8]
      exact Text.utf8EncodeChar_high hc b hb
    rw [ofClass, h _ hhigh, h _ hc]

/-- An ASCII character is where its byte is. -/
theorem agrees_eq {a : Char} (ha : a.toNat < 128) : Agrees (· = ascii a) (· = a) := by
  intro c b hb
  rw [decide_eq_decide]
  rcases Nat.lt_or_ge c.toNat 128 with hc | hc
  · rw [Text.utf8EncodeChar_of_ascii hc, List.mem_singleton] at hb
    rw [hb]
    refine ⟨fun h => ?_, congrArg ascii⟩
    rw [← Text.ofUInt8_ascii hc, h, Text.ofUInt8_ascii ha]
  · have hhigh := Text.utf8EncodeChar_high hc b hb
    have hlow := Text.toNat_ascii ha
    refine iff_of_false ?_ ?_ <;> rintro rfl <;> omega

end Bytes

namespace Text

open Bytes

variable {bytes : UInt8 → Bool} {chars : Char → Bool}

/-- Bytes of a class at the start of a text are those of the characters of the class. -/
theorem takeWhile_utf8 (h : Agrees bytes chars) (s : Text) :
    (utf8 s).takeWhile bytes = utf8 (s.takeWhile chars) := by
  induction s with
  | nil => rfl
  | cons c s ih =>
    rw [utf8_cons, List.takeWhile_cons]
    split
    · rename_i hc
      rw [List.takeWhile_append_of_pos fun b hb => (h c b hb).trans hc, ih, utf8_cons]
    · rename_i hc
      obtain ⟨b, bs, hbs, -⟩ := exists_utf8EncodeChar c
      have hb : bytes b = false := by
        rw [h c b (by rw [hbs]; exact List.mem_cons_self)]
        simpa using hc
      rw [hbs, List.cons_append, List.takeWhile_cons_of_neg (by simp [hb])]
      rfl

/-- What is left behind the characters of a class is left behind their bytes. -/
theorem dropWhile_utf8 (h : Agrees bytes chars) (s : Text) :
    (utf8 s).dropWhile bytes = utf8 (s.dropWhile chars) := by
  have hbytes := List.takeWhile_append_dropWhile (p := bytes) (l := utf8 s)
  have hchars := congrArg utf8 (List.takeWhile_append_dropWhile (p := chars) (l := s))
  rw [utf8_append] at hchars
  rw [takeWhile_utf8 h] at hbytes
  exact List.append_cancel_left (hbytes.trans hchars.symm)

/-- The first byte of a text is in a class exactly if its first character is. -/
theorem head?_utf8_any (h : Agrees bytes chars) (s : Text) :
    (utf8 s).head?.any bytes = s.head?.any chars := by
  cases s with
  | nil => rfl
  | cons c s =>
    obtain ⟨b, bs, hbs, -⟩ := exists_utf8EncodeChar c
    have := h c b (by rw [hbs]; exact List.mem_cons_self)
    simpa [utf8_cons, hbs] using this

/-- A text starts with an ASCII character exactly if its bytes start with that of the character. -/
theorem head?_utf8_eq_iff {a : Char} (ha : a.toNat < 128) (s : Text) :
    (utf8 s).head? = some (ascii a) ↔ s.head? = some a := by
  cases s with
  | nil => simp
  | cons c s =>
    obtain ⟨b, bs, hbs, -⟩ := exists_utf8EncodeChar c
    have := decide_eq_decide.1 (agrees_eq ha c b (by rw [hbs]; exact List.mem_cons_self))
    rw [utf8_cons, hbs, List.cons_append, List.head?_cons, List.head?_cons, Option.some.injEq,
      Option.some.injEq]
    exact this

/-- A text ends with an ASCII character exactly if its bytes end with that of the character. -/
theorem getLast?_utf8_eq_iff {a : Char} (ha : a.toNat < 128) (s : Text) :
    (utf8 s).getLast? = some (ascii a) ↔ s.getLast? = some a := by
  rcases List.eq_nil_or_concat' s with rfl | ⟨t, c, rfl⟩
  · simp
  · rw [utf8_append, utf8_cons, utf8_nil, List.append_nil, List.getLast?_concat, Option.some.injEq]
    rcases Nat.lt_or_ge c.toNat 128 with hc | hc
    · rw [utf8EncodeChar_of_ascii hc, List.getLast?_concat, Option.some.injEq, ascii_inj ha hc]
    · obtain ⟨b, bs, hbs, -⟩ := exists_utf8EncodeChar c
      have hne : String.utf8EncodeChar c ≠ [] := by simp [hbs]
      have hhigh := utf8EncodeChar_high hc _ (List.getLast_mem hne)
      rw [List.getLast?_append_of_ne_nil _ hne, List.getLast?_eq_some_getLast hne, Option.some.injEq]
      refine iff_of_false (ne_ascii_of_high hhigh ha) ?_
      rintro rfl
      omega

/-- The bytes of a text in front of which an ASCII character stands. -/
theorem utf8_cons_of_ascii {a : Char} (ha : a.toNat < 128) (s : Text) :
    utf8 (a :: s) = ascii a :: utf8 s := by
  rw [utf8_cons, utf8EncodeChar_of_ascii ha, List.singleton_append]

/-- **A text starts with ASCII characters** exactly if its bytes start with theirs. -/
theorem isPrefixOf_utf8 (pat : Text) (hpat : pat.IsAscii) (s : Text) :
    (utf8 pat).isPrefixOf (utf8 s) = (after? pat s).isSome := by
  induction pat generalizing s with
  | nil => rfl
  | cons a pat ih =>
    rw [IsAscii, List.forall_mem_cons] at hpat
    rw [utf8_cons_of_ascii hpat.1]
    by_cases hs : s.head? = some a
    · obtain ⟨t, rfl⟩ : ∃ t, s = a :: t := by
        cases s with
        | nil => cases hs
        | cons c t => exact ⟨t, by rw [Option.some.inj hs]⟩
      rw [utf8_cons_of_ascii hpat.1, List.isPrefixOf_cons_cons, ih hpat.2, after?, if_pos rfl]
      simp
    · have hbytes : (utf8 s).head? ≠ some (ascii a) := fun h => hs ((head?_utf8_eq_iff hpat.1 s).1 h)
      have hafter : after? (a :: pat) s = none := by
        cases s with
        | nil => rfl
        | cons c t =>
          rw [after?, if_neg]
          rintro rfl
          exact hs rfl
      rw [hafter, Option.isSome_none]
      cases hbs : utf8 s with
      | nil => rfl
      | cons b bs =>
        rw [hbs] at hbytes
        rw [List.isPrefixOf_cons_cons, Bool.and_eq_false_iff]
        exact .inl (beq_eq_false_iff_ne.2 fun h => hbytes (by rw [h]; rfl))

end Text

end ShaderWeave
