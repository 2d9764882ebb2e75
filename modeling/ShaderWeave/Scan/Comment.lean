import ShaderWeave.Text.Basic

set_option autoImplicit false

/-!
# Comments

Program text has two kinds of comment. A **line comment** runs from `//` to the end of its line and
includes the newline; a **block comment** runs from `/*` to the next `*/`, or to the end of the text
when there is none. Block comments do not nest.

A text splits into *lexemes*, each a comment or a single character outside comments. What the rest
of the library says about braces "outside comments" is said about lexemes.

## Main definitions

* `ShaderWeave.Scan.comment?` — the comment at the start of a text.
* `ShaderWeave.Scan.lexemes` — the lexemes of a text.
* `ShaderWeave.Scan.liveLine` — the part of one line that lies outside comments.

## Main results

* `ShaderWeave.Scan.comment?_eq_append` — a comment and the rest make up the text.
* `ShaderWeave.Scan.source_lexemes` — the lexemes of a text, put together, are the text.
-/

namespace ShaderWeave

namespace Scan

/-! ### One comment -/

/-- Cuts a text behind its first newline. -/
def throughNewline : Text → Text × Text
  | [] => ([], [])
  | c :: s =>
    if c = '\n' then ([c], s) else (c :: (throughNewline s).1, (throughNewline s).2)

/-- Cuts a text behind its first `*/`. -/
def throughBlockEnd : Text → Text × Text
  | [] => ([], [])
  | '*' :: '/' :: s => (['*', '/'], s)
  | c :: s => (c :: (throughBlockEnd s).1, (throughBlockEnd s).2)

/-- **The comment at the start of a text**, if there is one, and what follows it. -/
def comment? : Text → Option (Text × Text)
  | '/' :: '/' :: s => some ('/' :: '/' :: (throughNewline s).1, (throughNewline s).2)
  | '/' :: '*' :: s => some ('/' :: '*' :: (throughBlockEnd s).1, (throughBlockEnd s).2)
  | _ => none

/-- A line comment and what is left are the text. -/
theorem throughNewline_append (s : Text) : (throughNewline s).1 ++ (throughNewline s).2 = s := by
  induction s with
  | nil => rfl
  | cons c s ih => by_cases h : c = '\n' <;> simp [throughNewline, h, ih]

/-- A block comment and what is left are the text. -/
theorem throughBlockEnd_append (s : Text) :
    (throughBlockEnd s).1 ++ (throughBlockEnd s).2 = s := by
  fun_induction throughBlockEnd s with
  | case1 => rfl
  | case2 => rfl
  | case3 c s _ ih => simp [ih]

/-- **A comment and the rest make up the text**, and a comment has at least two characters. -/
theorem comment?_eq_append {s t r : Text} (h : comment? s = some (t, r)) :
    s = t ++ r ∧ 2 ≤ t.length := by
  unfold comment? at h
  split at h
  · simp only [Option.some.injEq, Prod.mk.injEq] at h
    obtain ⟨rfl, rfl⟩ := h
    simp [throughNewline_append]
  · simp only [Option.some.injEq, Prod.mk.injEq] at h
    obtain ⟨rfl, rfl⟩ := h
    simp [throughBlockEnd_append]
  · simp at h

/-- What follows a comment is shorter than the text. -/
theorem length_lt_of_comment? {s t r : Text} (h : comment? s = some (t, r)) :
    r.length < s.length := by
  obtain ⟨rfl, ht⟩ := comment?_eq_append h
  simp only [List.length_append]
  omega

/-! ### Lexemes -/

/-- **A lexeme**: a comment, or one character outside comments. -/
inductive Lexeme where
  /-- A character outside comments. -/
  | live (c : Char)
  /-- A comment with its delimiters. -/
  | comment (t : Text)
  deriving DecidableEq, Repr

/-- The text of a lexeme. -/
def Lexeme.text : Lexeme → Text
  | .live c => [c]
  | .comment t => t

/-- The text that lexemes make up. -/
def source (ls : List Lexeme) : Text :=
  ls.flatMap Lexeme.text

/-- **The lexemes of a text**, from left to right. -/
def lexemes : Text → List Lexeme
  | [] => []
  | c :: s =>
    match _ : comment? (c :: s) with
    | some (t, r) => .comment t :: lexemes r
    | none => .live c :: lexemes s
termination_by s => s.length
decreasing_by
  · exact length_lt_of_comment? ‹_›
  · simp

/-- A text that starts with a comment has it as its first lexeme. -/
theorem lexemes_of_comment? {s t r : Text} (h : comment? s = some (t, r)) :
    lexemes s = .comment t :: lexemes r := by
  cases s with
  | nil => simp [comment?] at h
  | cons c s =>
    rw [lexemes]
    split
    · rename_i h'
      rw [h] at h'
      simp only [Option.some.injEq, Prod.mk.injEq] at h'
      obtain ⟨rfl, rfl⟩ := h'
      rfl
    · rename_i h'
      simp [h] at h'

/-- A character at which no comment starts is a lexeme of its own. -/
theorem lexemes_of_live {c : Char} {s : Text} (h : comment? (c :: s) = none) :
    lexemes (c :: s) = .live c :: lexemes s := by
  rw [lexemes]
  split
  · rename_i h'
    simp [h] at h'
  · rfl

/-- No lexemes make up the empty text. -/
@[simp] theorem source_nil : source [] = [] := rfl

/-- The text of lexemes is the text of the first in front of the others. -/
@[simp] theorem source_cons (l : Lexeme) (ls : List Lexeme) :
    source (l :: ls) = l.text ++ source ls := rfl

/-- The text of two lists of lexemes in a row is their two texts in a row. -/
@[simp] theorem source_append (ks ls : List Lexeme) :
    source (ks ++ ls) = source ks ++ source ls := by
  simp [source]

/-- **The lexemes of a text, put together, are the text.** -/
theorem source_lexemes (s : Text) : source (lexemes s) = s := by
  fun_induction lexemes s with
  | case1 => rfl
  | case2 c s t r h ih => simp [Lexeme.text, ih, (comment?_eq_append h).1]
  | case3 c s _ ih => simp [Lexeme.text, ih]

/-! ### One line at a time -/

/-- **The live part of a line**: its characters outside comments, given whether a block comment is
open at its start, together with whether one is open at its end. -/
def liveLine : (inComment : Bool) → Text → Text × Bool
  | inComment, [] => ([], inComment)
  | true, '*' :: '/' :: s => liveLine false s
  | true, _ :: s => liveLine true s
  | false, '/' :: '/' :: _ => ([], false)
  | false, '/' :: '*' :: s => liveLine true s
  | false, c :: s => (c :: (liveLine false s).1, (liveLine false s).2)

/-- Whether a block comment is open behind a line, given whether one is open at its start. -/
def commentOpenAfter (inComment : Bool) (line : Text) : Bool :=
  (liveLine inComment line).2

end Scan

end ShaderWeave
