import ShaderWeave.Scan.Comment

set_option autoImplicit false

/-!
# Pieces

Every pass over a template looks for items of one kind (stage blocks, declarations, macros) and
leaves all else alone. It steps over comments, tries to read an item at each position outside them,
and where none starts there goes on with the next character. The result is the text cut into
**pieces**: comments, plain characters and items.

## Main definitions

* `ShaderWeave.Scan.Reader` — reads one kind of item at the start of a text.
* `ShaderWeave.Scan.Piece` — a comment, a plain character, or an item.
* `ShaderWeave.Scan.pieces` — a text cut into pieces.

## Main results

* `ShaderWeave.Scan.flatMap_text_pieces` — the pieces of a text, put together, are the text.
-/

namespace ShaderWeave

namespace Scan

/-- **A reader** of one kind of item: `read` finds an item at the very start of a text and returns it
with what follows. An item covers at least one character. -/
structure Reader (α : Type) where
  /-- The item at the start of a text, and what follows it. -/
  read : Text → Option (α × Text)
  /-- What follows an item is an end of the text behind its first character. -/
  read_suffix : ∀ {s a r}, read s = some (a, r) → ∃ c t, s = c :: t ∧ r <:+ t

/-- **A piece** of a text. -/
inductive Piece (α : Type) where
  /-- A comment with its delimiters. -/
  | comment (t : Text)
  /-- A character outside comments and items. -/
  | plain (c : Char)
  /-- An item with the text that it was read from. -/
  | item (raw : Text) (value : α)

namespace Piece

variable {α : Type}

/-- The text of a piece. -/
def text : Piece α → Text
  | .comment t => t
  | .plain c => [c]
  | .item raw _ => raw

/-- The value of an item. -/
def value? : Piece α → Option α
  | .item _ a => some a
  | _ => none

end Piece

namespace Reader

variable {α : Type} (R : Reader α)

/-- A reader that succeeds takes at least one character. -/
theorem length_lt {s r : Text} {a : α} (h : R.read s = some (a, r)) : r.length < s.length := by
  obtain ⟨c, t, rfl, ht⟩ := R.read_suffix h
  have := ht.length_le
  simp only [List.length_cons]
  omega

/-- The text that an item was read from is what precedes the rest. -/
theorem take_append {s r : Text} {a : α} (h : R.read s = some (a, r)) :
    s.take (s.length - r.length) ++ r = s := by
  obtain ⟨c, t, rfl, ⟨u, rfl⟩⟩ := R.read_suffix h
  have : (c :: (u ++ r)).length - r.length = (c :: u).length := by simp; omega
  rw [this, ← List.cons_append, List.take_left]

end Reader

variable {α : Type}

/-- **The pieces of a text**, from left to right. -/
def pieces (R : Reader α) : Text → List (Piece α)
  | [] => []
  | c :: s =>
    match _ : comment? (c :: s) with
    | some (t, r) => .comment t :: pieces R r
    | none =>
      match _ : R.read (c :: s) with
      | some (a, r) => .item ((c :: s).take ((c :: s).length - r.length)) a :: pieces R r
      | none => .plain c :: pieces R s
termination_by s => s.length
decreasing_by
  · exact length_lt_of_comment? ‹_›
  · exact R.length_lt ‹_›
  · simp

/-- **The pieces of a text, put together, are the text.** -/
theorem flatMap_text_pieces (R : Reader α) (s : Text) :
    (pieces R s).flatMap Piece.text = s := by
  fun_induction pieces R s with
  | case1 => rfl
  | case2 c s t r h ih => simp [Piece.text, ih, (comment?_eq_append h).1]
  | case3 c s _ a r h ih => simp only [List.flatMap_cons, Piece.text, ih, R.take_append h]
  | case4 c s _ _ ih => simp [Piece.text, ih]

/-- The items of a text, in order. -/
def items (R : Reader α) (s : Text) : List α :=
  (pieces R s).filterMap Piece.value?

end Scan

end ShaderWeave
