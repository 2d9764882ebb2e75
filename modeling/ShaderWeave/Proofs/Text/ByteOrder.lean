import Mathlib.Data.List.Basic
import ShaderWeave.Table

set_option autoImplicit false

/-!
# The order of names and of their UTF-8 bytes

Names are put in order by code point. That is the order of their UTF-8 bytes: of two characters, the one
with the greater code point is encoded with greater bytes, whatever follows.

## Main results

* `ShaderWeave.Text.utf8EncodeChar_append_lt` — the bytes of characters are in the order of characters.
* `ShaderWeave.Text.bytes_lt_of_nameBefore` — the bytes of names are in the order of names.
-/

namespace ShaderWeave

namespace Text

/-- The greater of two numbers has the greater digit of base 64 at the first place where they differ. -/
theorem digits_lt {v w : ℕ} (h : v < w) :
    v / 262144 < w / 262144 ∨ v / 262144 = w / 262144 ∧
      (v / 4096 % 64 < w / 4096 % 64 ∨ v / 4096 % 64 = w / 4096 % 64 ∧
        (v / 64 % 64 < w / 64 % 64 ∨ v / 64 % 64 = w / 64 % 64 ∧ v % 64 < w % 64)) := by
  have hlast : v / 64 < w / 64 ∨ v / 64 = w / 64 ∧ v % 64 < w % 64 := by omega
  rcases hlast with hlast | hlast
  · have hthird : v / 4096 < w / 4096 ∨ v / 4096 = w / 4096 ∧ v / 64 % 64 < w / 64 % 64 := by omega
    omega
  · omega

/-- **The bytes of characters are in the order of the characters**, whatever follows them. -/
theorem utf8EncodeChar_append_lt {a b : Char} (h : a.toNat < b.toNat) (s t : List UInt8) :
    String.utf8EncodeChar a ++ s < String.utf8EncodeChar b ++ t := by
  have hb : b.val.toNat < 0x110000 := by
    have := b.valid
    simp only [UInt32.isValidChar, Nat.isValidChar] at this
    omega
  have hab : a.val.toNat < b.val.toNat := h
  have hdigits := digits_lt hab
  simp only [String.utf8EncodeChar]
  -- fewer bytes start with a lower one; as many bytes have the digits of the numbers
  split_ifs <;>
    simp only [List.cons_append, List.nil_append, List.cons_lt_cons_iff, UInt8.lt_iff_toNat_lt,
      ← UInt8.toNat_inj, UInt8.toNat_ofNat'] <;>
    simp (disch := omega) only [Nat.mod_eq_of_lt] <;> omega

/-- The bytes of texts are in the order of the texts. -/
theorem flatMap_lt_of_precedes {s t : Text} (h : precedes s t = true) :
    s.flatMap String.utf8EncodeChar < t.flatMap String.utf8EncodeChar := by
  induction s generalizing t with
  | nil =>
    cases t with
    | nil => simp [precedes] at h
    | cons b t =>
      obtain ⟨u, us, hu⟩ := List.exists_cons_of_ne_nil (String.utf8EncodeChar_ne_nil (c := b))
      rw [List.flatMap_nil, List.flatMap_cons, hu]
      exact List.nil_lt_cons _ _
  | cons a s ih =>
    cases t with
    | nil => simp [precedes] at h
    | cons b t =>
      rw [precedes, Bool.or_eq_true, Bool.and_eq_true, decide_eq_true_eq, decide_eq_true_eq] at h
      rw [List.flatMap_cons, List.flatMap_cons]
      rcases h with h | ⟨rfl, h⟩
      · exact utf8EncodeChar_append_lt h _ _
      · exact List.append_left_lt (ih h)

/-- The UTF-8 bytes of a name. -/
theorem toUTF8_toList (s : String) :
    s.toUTF8.data.toList = s.toList.flatMap String.utf8EncodeChar := by
  rw [String.toUTF8_eq_toByteArray, ← String.utf8Encode_toList, List.utf8Encode,
    List.toList_data_toByteArray]

/-- **The bytes of names are in the order of the names.** -/
theorem bytes_lt_of_nameBefore {a b : String} (h : nameBefore a b = true) :
    a.toUTF8.data.toList < b.toUTF8.data.toList := by
  rw [toUTF8_toList, toUTF8_toList]
  exact flatMap_lt_of_precedes h

end Text

end ShaderWeave
