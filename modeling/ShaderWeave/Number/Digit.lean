import ShaderWeave.Text.Basic

set_option autoImplicit false

/-!
# Decimal digits

Natural numbers as sequences of decimal digits, most significant first, and as text.

## Main definitions

* `ShaderWeave.Number.digits` — the digits of a number, without leading zeros.
* `ShaderWeave.Number.ofDigits` — the number that digits denote.
* `ShaderWeave.Number.readDigits` — the digits at the start of a text.
* `ShaderWeave.Number.decimal` — a number as text.

## Main results

* `ShaderWeave.Number.ofDigits_digits` — the digits of a number denote it.
* `ShaderWeave.Number.readDigits_text` — reading finds the digits that were written.
-/

namespace ShaderWeave

namespace Number

/-- **A decimal digit.** -/
abbrev Digit := Fin 10

/-- The digit 0. -/
def Digit.zero : Digit :=
  ⟨0, by decide⟩

/-- **The digits of a number**, without leading zeros; zero has the digit 0. -/
def digits (n : Nat) : List Digit :=
  if n < 10 then [Fin.ofNat 10 n] else digits (n / 10) ++ [Fin.ofNat 10 n]
termination_by n
decreasing_by omega

/-- The last `len` digits of a number, with leading zeros. -/
def lastDigits (n : Nat) : (len : Nat) → List Digit
  | 0 => []
  | len + 1 => lastDigits (n / 10) len ++ [Fin.ofNat 10 n]

/-- **The number that digits denote**; no digits denote zero. -/
def ofDigits (ds : List Digit) : Nat :=
  ds.foldl (fun n d => 10 * n + d.val) 0

/-- The character of a digit. -/
def Digit.char (d : Digit) : Char :=
  Char.ofNat (48 + d.val)

/-- The digit of a character. -/
def digit? (c : Char) : Option Digit :=
  if c.isDigit then some (Fin.ofNat 10 (c.toNat - 48)) else none

/-- Digits as text. -/
def text (ds : List Digit) : Text :=
  ds.map Digit.char

/-- **The digits at the start of a text**, as many as follow, and what follows them. -/
def readDigits : Text → List Digit × Text
  | [] => ([], [])
  | c :: s =>
    match digit? c with
    | some d => (d :: (readDigits s).1, (readDigits s).2)
    | none => ([], c :: s)

/-- **A number as text**, in decimal. -/
def decimal (n : Nat) : Text :=
  text (digits n)

/-- An integer as text, in decimal with a minus sign where it is negative. -/
def signedDecimal (n : Int) : Text :=
  if n < 0 then '-' :: decimal n.natAbs else decimal n.natAbs

/-! ### Reading what was written -/

/-- A digit behind others counts the number before it ten times. -/
theorem ofDigits_append_singleton (ds : List Digit) (d : Digit) :
    ofDigits (ds ++ [d]) = 10 * ofDigits ds + d.val := by
  simp [ofDigits, List.foldl_append]

/-- **The digits of a number denote it.** -/
theorem ofDigits_digits (n : Nat) : ofDigits (digits n) = n := by
  fun_induction digits n with
  | case1 n h => simp [ofDigits, Fin.ofNat, Nat.mod_eq_of_lt h]
  | case2 n h ih =>
    rw [ofDigits_append_singleton, ih]
    simp only [Fin.ofNat]
    omega

/-- Every number is written with one digit at least. -/
theorem digits_ne_nil (n : Nat) : digits n ≠ [] := by
  unfold digits
  split <;> simp

/-- The character of a digit is read as the digit. -/
@[simp] theorem digit?_char (d : Digit) : digit? d.char = some d := by
  revert d
  decide

/-- **Digits are read back** in front of any text that does not go on with one. -/
theorem readDigits_text (ds : List Digit) {rest : Text}
    (h : ∀ c s, rest = c :: s → digit? c = none) :
    readDigits (text ds ++ rest) = (ds, rest) := by
  induction ds with
  | nil =>
    cases rest with
    | nil => rfl
    | cons c s => simp [text, readDigits, h c s rfl]
  | cons d ds ih =>
    simp only [text, List.map_cons, List.cons_append, readDigits, digit?_char] at ih ⊢
    simp [ih]

/-- The digits read and what is left are the text. -/
theorem readDigits_append (s : Text) : text (readDigits s).1 ++ (readDigits s).2 = s := by
  induction s with
  | nil => rfl
  | cons c s ih =>
    unfold readDigits
    cases hd : digit? c with
    | none => rfl
    | some d =>
      have hc : d.char = c := by
        unfold digit? at hd
        split at hd
        · rename_i hdig
          simp only [Option.some.injEq] at hd
          subst hd
          simp only [Char.isDigit, Bool.and_eq_true, decide_eq_true_eq, ge_iff_le,
            UInt32.le_iff_toNat_le] at hdig
          simp only [Digit.char, Fin.ofNat]
          have h1 : 48 ≤ c.toNat := hdig.1
          have h2 : c.toNat ≤ 57 := hdig.2
          have : 48 + (c.toNat - 48) % 10 = c.toNat := by omega
          rw [this, Char.ofNat_toNat]
        · simp at hd
      simp [text, hc] at ih ⊢
      exact ih

end Number

end ShaderWeave
