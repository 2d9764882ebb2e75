import ShaderWeave.Text.Basic

set_option autoImplicit false

/-!
# Tokens of directives

Readers for the small parts that directives are made of. Each takes the start of a text and returns
what it read with an end of that text.

## Main definitions

* `ShaderWeave.Scan.word?` — an identifier.
* `ShaderWeave.Scan.keyword?` — a given identifier.
* `ShaderWeave.Scan.parenthesized?` — an argument in parentheses.

## Main results

* `ShaderWeave.Scan.word?_suffix`, `ShaderWeave.Scan.parenthesized?_suffix` — what is left is an end
  of the text.
-/

namespace ShaderWeave

namespace Scan

open Text

/-- **The identifier at the start of a text**: as many word characters as follow, at least one. -/
def word? (s : Text) : Option (Text × Text) :=
  if s.takeWhile isWordChar = [] then none
  else some (s.takeWhile isWordChar, s.dropWhile isWordChar)

/-- **What follows a given identifier** that a text starts with. A longer identifier is another one. -/
def keyword? (w s : Text) : Option Text :=
  match word? s with
  | some (v, r) => if v = w then some r else none
  | none => none

/-- Characters that may not stand inside an argument in parentheses. -/
def endsArgument (c : Char) : Bool :=
  c = ')' || c = '(' || c = '\n'

/-- **The argument in parentheses at the start of a text**, trimmed. It holds no parenthesis and
stays on one line. -/
def parenthesized? : Text → Option (Text × Text)
  | '(' :: s =>
    match s.dropWhile (!endsArgument ·) with
    | ')' :: r => some (trim (s.takeWhile (!endsArgument ·)), r)
    | _ => none
  | _ => none

/-! ### What is left is an end of the text -/

/-- What is left behind the blanks is an end of the text. -/
theorem skipBlanks_suffix (s : Text) : skipBlanks s <:+ s :=
  List.dropWhile_suffix _

/-- What is left behind a word is an end of the text. -/
theorem word?_suffix {s w r : Text} (h : word? s = some (w, r)) : r <:+ s := by
  unfold word? at h
  split at h
  · simp at h
  · simp only [Option.some.injEq, Prod.mk.injEq] at h
    exact h.2 ▸ List.dropWhile_suffix _

/-- What is left behind a keyword is an end of the text. -/
theorem keyword?_suffix {w s r : Text} (h : keyword? w s = some r) : r <:+ s := by
  unfold keyword? at h
  split at h
  · rename_i v r' hw
    split at h
    · rw [← Option.some.inj h]
      exact word?_suffix hw
    · simp at h
  · simp at h

/-- What is left behind an argument in parentheses is an end of the text. -/
theorem parenthesized?_suffix {s a r : Text} (h : parenthesized? s = some (a, r)) : r <:+ s := by
  unfold parenthesized? at h
  split at h
  · rename_i s
    split at h
    · rename_i r' hr
      simp only [Option.some.injEq, Prod.mk.injEq] at h
      obtain ⟨_, rfl⟩ := h
      have := List.dropWhile_suffix (!endsArgument ·) (l := s)
      rw [hr] at this
      exact ((List.suffix_cons _ _).trans this).trans (List.suffix_cons _ _)
    · simp at h
  · simp at h

end Scan

end ShaderWeave
