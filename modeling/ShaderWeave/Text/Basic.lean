set_option autoImplicit false

/-!
# Texts

Templates, chunk bodies and generated programs are texts: lists of characters. This module has the
character classes that the template grammar distinguishes, the cuts at the ends of a text, and the
size of a text in UTF-8 bytes.

Two kinds of white space occur. A **blank** separates the tokens of a directive and is one of five
ASCII characters. A **space** is any character with the Unicode property `White_Space`; spaces are
what trimming removes.

## Main definitions

* `ShaderWeave.Text` — a text.
* `ShaderWeave.Text.isBlank`, `isSpace`, `isWordChar` — the character classes.
* `ShaderWeave.Text.trim` — a text without the spaces at its ends.
* `ShaderWeave.Text.byteSize` — the number of UTF-8 bytes of a text.
-/

namespace ShaderWeave

/-- **A text**: the characters of a template or of a program source, in order. -/
abbrev Text := List Char

namespace Text

/-! ### Character classes -/

/-- **Blanks** separate the tokens of a directive: space, tab, newline, form feed and carriage
return. The vertical tab is not one of them. -/
def isBlank (c : Char) : Bool :=
  c = ' ' || c = '\t' || c = '\n' || c = '\x0c' || c = '\r'

/-- **Spaces** are the characters with the Unicode property `White_Space`. -/
def isSpace (c : Char) : Bool :=
  isBlank c || c = '\x0b' || c = '\u0085' || c = '\u00a0' || c = '\u1680'
    || (0x2000 ≤ c.toNat && c.toNat ≤ 0x200a) || c = '\u2028' || c = '\u2029' || c = '\u202f'
    || c = '\u205f' || c = '\u3000'

/-- **Word characters** make up identifiers: the ASCII letters and digits, and the underscore. -/
def isWordChar (c : Char) : Bool :=
  c.isAlphanum || c = '_'

/-- Every blank is a space. -/
theorem isSpace_of_isBlank {c : Char} (h : isBlank c = true) : isSpace c = true := by
  simp [isSpace, h]

/-! ### Cutting the ends -/

/-- The text without the blanks that it starts with. -/
def skipBlanks (s : Text) : Text :=
  s.dropWhile isBlank

/-- The text without the spaces that it starts with. -/
def trimStart (s : Text) : Text :=
  s.dropWhile isSpace

/-- The text without the spaces that it ends with. -/
def trimEnd (s : Text) : Text :=
  (s.reverse.dropWhile isSpace).reverse

/-- **Trimming** removes the spaces at both ends. -/
def trim (s : Text) : Text :=
  trimEnd (trimStart s)

/-- What follows `pre` in a text that starts with it. -/
def after? : (pre s : Text) → Option Text
  | [], s => some s
  | _ :: _, [] => none
  | p :: pre, c :: s => if p = c then after? pre s else none

/-- What follows a part is an end of the text. -/
theorem after?_suffix {pre s r : Text} (h : after? pre s = some r) : r <:+ s := by
  fun_induction after? pre s with
  | case1 s => simp_all
  | case2 => simp at h
  | case3 pre c s ih => exact (ih h).trans (List.suffix_cons _ _)
  | case4 => simp at h

/-- What stands before the last character of a text that ends in `c`. -/
def beforeLast? (c : Char) (s : Text) : Option Text :=
  if s.getLast? = some c then some s.dropLast else none

/-! ### Size and order -/

/-- **The size of a text** in UTF-8 bytes. Positions in diagnostics are counted in it. -/
def byteSize (s : Text) : Nat :=
  s.foldr (fun c n => c.utf8Size + n) 0

/-- The empty text takes no bytes. -/
@[simp] theorem byteSize_nil : byteSize [] = 0 := rfl

/-- The bytes of the first character come on top of those of the rest. -/
@[simp] theorem byteSize_cons (c : Char) (s : Text) : byteSize (c :: s) = c.utf8Size + byteSize s :=
  rfl

/-- The bytes of two texts in a row add up. -/
@[simp] theorem byteSize_append (s t : Text) : byteSize (s ++ t) = byteSize s + byteSize t := by
  induction s with
  | nil => simp
  | cons c s ih => rw [List.cons_append, byteSize_cons, ih, byteSize_cons, Nat.add_assoc]

/-- A text that is not empty takes a byte at least. -/
theorem byteSize_pos {s : Text} (h : s ≠ []) : 0 < byteSize s := by
  cases s with
  | nil => exact absurd rfl h
  | cons c s => exact Nat.add_pos_left c.utf8Size_pos _

/-- **The order of texts** is lexicographic by code point, which is also the order of their UTF-8
bytes. -/
def precedes : Text → Text → Bool
  | _, [] => false
  | [], _ :: _ => true
  | a :: s, b :: t => a.toNat < b.toNat || (a = b && precedes s t)

/-! ### Lines and occurrences -/

/-- **The lines of a text**, each with the newline that ends it; the last one may have none. Put
together they are the text. -/
def lines : Text → List Text
  | [] => []
  | c :: s =>
    if c = '\n' then [c] :: lines s
    else match lines s with
      | [] => [[c]]
      | l :: ls => (c :: l) :: ls

/-- Whether `pat` occurs in a text. -/
def occurs (pat : Text) : Text → Bool
  | [] => pat.isEmpty
  | c :: s => (after? pat (c :: s)).isSome || occurs pat s

/-- **A text with the occurrences of a word replaced**, from left to right. The word is given by its
first character and the others. -/
def replaceAll (first : Char) (more new : Text) : Text → Text
  | [] => []
  | c :: s =>
    match _ : after? (first :: more) (c :: s) with
    | some r => new ++ replaceAll first more new r
    | none => c :: replaceAll first more new s
termination_by s => s.length
decreasing_by
  · rename_i h
    simp only [after?] at h
    split at h
    · have := (after?_suffix h).length_le
      simp only [List.length_cons]
      omega
    · simp at h
  · simp

/-- The texts one after the other, with `sep` between neighbours. -/
def join (sep : Text) (parts : List Text) : Text :=
  List.intercalate sep parts

end Text

end ShaderWeave
