import ShaderWeave.Conditional
import ShaderWeave.Proofs.Scan.Balance

set_option autoImplicit false

/-!
# Markup

What an author of a template writes is a tree: plain text, scopes between braces, comments, and
conditionals with one or two bodies, nested to any depth. This module has such trees, the text that
they are written as, and their value for given flags, which is defined without any scanning.

## Main definitions

* `ShaderWeave.Markup` — a tree of text, scopes, comments and conditionals.
* `ShaderWeave.Markup.render` — the text of a tree.
* `ShaderWeave.Markup.eval` — its value: each conditional gives way to one of its bodies.
* `ShaderWeave.Markup.NoStrayElse` — no conditional without an alternative stands before the word
  `else`, which would be read as its alternative.

## Main results

* `ShaderWeave.Markup.wellBraced_render` — the text of a tree is well-braced, so that it can be the
  body of a block.
-/

namespace ShaderWeave

open Text Scan

/-- **A plain text**: no brace, no comment and no `#if` starts in it, whatever follows. So it does not
end in `/`, `#` or `#i`. -/
structure PlainText where
  text : Text
  noOpen : '{' ∉ text := by decide
  noClose : '}' ∉ text := by decide
  uncommented : isUncommented text = true := by decide
  unconditional : isClearOf ['#', 'i', 'f'] text = true := by decide

/-- **The head of a conditional**: `#if`, blanks, the name of a flag, and blanks before the brace. -/
structure IfHead where
  gap : Text
  flag : Text
  pad : Text
  gap_ne_nil : gap ≠ [] := by decide
  gap_blank : gap.all isBlank = true := by decide
  flag_ne_nil : flag ≠ [] := by decide
  flag_word : flag.all isWordChar = true := by decide
  pad_blank : pad.all isBlank = true := by decide

/-- The text of a head, up to the brace. -/
def IfHead.text (h : IfHead) : Text :=
  "#if".toList ++ h.gap ++ h.flag ++ h.pad

/-- **Whether a flag is true**: it is set, and to the truth value true. -/
def IfHead.Holds (h : IfHead) (flags : Flags) : Prop :=
  flags.get? (.ofList h.flag) = some (.bool true)

/-- Whether the flag of a head is true can be computed. -/
instance (h : IfHead) (flags : Flags) : Decidable (h.Holds flags) :=
  inferInstanceAs (Decidable (_ = _))

/-- **The word between two bodies**: `else` with blanks around it. -/
structure ElseHead where
  gap : Text
  pad : Text
  gap_blank : gap.all isBlank = true := by decide
  pad_blank : pad.all isBlank = true := by decide

/-- The text of an `else`, up to the brace. -/
def ElseHead.text (h : ElseHead) : Text :=
  h.gap ++ "else".toList ++ h.pad

/-- **A tree of markup**: what comes first in it, and the rest. -/
inductive Markup where
  /-- Nothing. -/
  | done
  | plain (t : PlainText) (rest : Markup)
  | comment (c : ClosedComment) (rest : Markup)
  /-- Braces of the program, with what stands between them. -/
  | scope (body rest : Markup)
  /-- A conditional without an alternative. -/
  | when (head : IfHead) (body rest : Markup)
  /-- A conditional with an alternative. -/
  | either (head : IfHead) (body : Markup) (mid : ElseHead) (alt rest : Markup)

namespace Markup

/-- **The text of a tree.** -/
def render : Markup → Text
  | done => []
  | plain t rest => t.text ++ rest.render
  | comment c rest => c.text ++ rest.render
  | scope body rest => braced body.render ++ rest.render
  | .when head body rest => head.text ++ braced body.render ++ rest.render
  | either head body mid alt rest =>
    head.text ++ braced body.render ++ mid.text ++ braced alt.render ++ rest.render

/-- **The value of a tree** for given flags: each conditional gives way to the body for its flag, or
to nothing where there is none; all else stays. -/
def eval (flags : Flags) : Markup → Text
  | done => []
  | plain t rest => t.text ++ rest.eval flags
  | comment c rest => c.text ++ rest.eval flags
  | scope body rest => braced (body.eval flags) ++ rest.eval flags
  | .when head body rest => (if head.Holds flags then body.eval flags else []) ++ rest.eval flags
  | either head body _ alt rest =>
    (if head.Holds flags then body.eval flags else alt.eval flags) ++ rest.eval flags

/-- Whether the word `else` comes first in a text, but for blanks. -/
def startsWithElse (s : Text) : Bool :=
  (after? "else".toList (skipBlanks s)).isSome

/-- **No stray `else`**: behind a conditional without an alternative, the text does not go on with
`else`. -/
def NoStrayElse : Markup → Prop
  | done => True
  | plain _ rest => rest.NoStrayElse
  | comment _ rest => rest.NoStrayElse
  | scope body rest => body.NoStrayElse ∧ rest.NoStrayElse
  | .when _ body rest =>
    body.NoStrayElse ∧ startsWithElse rest.render = false ∧ rest.NoStrayElse
  | either _ body _ alt rest => body.NoStrayElse ∧ alt.NoStrayElse ∧ rest.NoStrayElse

end Markup

/-! ### The text of a tree as a body -/

/-- The head of a conditional has no characters but blanks, those of words, and the `#`. -/
theorem IfHead.notMem_text (h : IfHead) {c : Char} (hb : isBlank c = false)
    (hw : isWordChar c = false) (hn : c ≠ '#') : c ∉ h.text := by
  have hgap : c ∉ h.gap := fun hm => by simp [List.all_eq_true.1 h.gap_blank c hm] at hb
  have hflag : c ∉ h.flag := fun hm => by simp [List.all_eq_true.1 h.flag_word c hm] at hw
  have hpad : c ∉ h.pad := fun hm => by simp [List.all_eq_true.1 h.pad_blank c hm] at hb
  have hword : c ∉ "#if".toList := by
    rintro hm
    simp only [String.reduceToList, List.mem_cons, List.not_mem_nil, or_false] at hm
    rcases hm with rfl | rfl | rfl
    · exact hn rfl
    · exact absurd hw (by decide)
    · exact absurd hw (by decide)
  simp only [IfHead.text, List.mem_append, not_or]
  exact ⟨⟨⟨hword, hgap⟩, hflag⟩, hpad⟩

/-- An `else` has no characters but blanks and those of words. -/
theorem ElseHead.notMem_text (h : ElseHead) {c : Char} (hb : isBlank c = false)
    (hw : isWordChar c = false) : c ∉ h.text := by
  have hgap : c ∉ h.gap := fun hm => by simp [List.all_eq_true.1 h.gap_blank c hm] at hb
  have hpad : c ∉ h.pad := fun hm => by simp [List.all_eq_true.1 h.pad_blank c hm] at hb
  have hword : c ∉ "else".toList := by
    rintro hm
    simp only [String.reduceToList, List.mem_cons, List.not_mem_nil, or_false] at hm
    rcases hm with rfl | rfl | rfl | rfl <;> exact absurd hw (by decide)
  simp only [ElseHead.text, List.mem_append, not_or]
  exact ⟨⟨hgap, hword⟩, hpad⟩

namespace Markup

/-- The head of a conditional is well-braced. -/
theorem wellBraced_ifHead (h : IfHead) : WellBraced h.text :=
  .of_isUncommented
    (isUncommented_of_notMem (h.notMem_text (by decide) (by decide) (by decide)))
    (h.notMem_text (by decide) (by decide) (by decide))
    (h.notMem_text (by decide) (by decide) (by decide))

/-- The head of an alternative is well-braced. -/
theorem wellBraced_elseHead (h : ElseHead) : WellBraced h.text :=
  .of_isUncommented (isUncommented_of_notMem (h.notMem_text (by decide) (by decide)))
    (h.notMem_text (by decide) (by decide)) (h.notMem_text (by decide) (by decide))

/-- **The text of a tree is well-braced**, so that it can be the body of a block. -/
theorem wellBraced_render (m : Markup) : WellBraced m.render := by
  induction m with
  | done => exact .nil
  | plain t rest ih => exact (WellBraced.of_isUncommented t.uncommented t.noOpen t.noClose).append ih
  | comment c rest ih => exact (WellBraced.closedComment c).append ih
  | scope body rest ihb ih => exact ihb.braced.append ih
  | when head body rest ihb ih => exact ((wellBraced_ifHead head).append ihb.braced).append ih
  | either head body mid alt rest ihb iha ih =>
    have hthen := (wellBraced_ifHead head).append ihb.braced
    have helse := (wellBraced_elseHead mid).append iha.braced
    have h := (hthen.append helse).append ih
    rwa [← List.append_assoc] at h

end Markup

end ShaderWeave
