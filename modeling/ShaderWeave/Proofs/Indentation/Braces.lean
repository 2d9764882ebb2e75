import Mathlib.Data.List.Basic
import ShaderWeave.Indentation

set_option autoImplicit false

/-!
# The braces of a line

Formatting counts the braces of each line in a loop of its own, which carries along whether a block comment
is open and whether anything has been seen but comments, blanks and closing braces. What it finds is told
by the part of the line outside comments: the braces in it, and the places of closing braces in front of
which there is nothing but blanks and other closing braces. Its comment state is the one that the reading
of directives carries from line to line.

## Main definitions

* `ShaderWeave.Indentation.IsLeadingClose` — the place of a closing brace that comes before anything else.
* `ShaderWeave.Indentation.numLeadingCloses` — how many such places there are.

## Main results

* `ShaderWeave.Indentation.countBraces_eq` — what the loop finds.
-/

namespace ShaderWeave

open Text Scan

namespace Indentation

/-- **The place of a closing brace that comes before anything else**, in the part of a line outside
comments: only blanks and other closing braces are in front of it. -/
def IsLeadingClose (live : Text) (i : ℕ) : Prop :=
  live[i]? = some '}' ∧ (live.take i).all (fun c => isBlank c || c = '}') = true

/-- Whether a place is that of a leading closing brace can be computed. -/
instance decidableIsLeadingClose (live : Text) (i : ℕ) : Decidable (IsLeadingClose live i) :=
  inferInstanceAs (Decidable (_ ∧ _))

/-- **How many closing braces come before anything else.** -/
def numLeadingCloses (live : Text) : ℕ :=
  (List.range live.length).countP fun i => IsLeadingClose live i

variable {c : Char} {t : Text}

/-- No closing brace comes first exactly if none is counted. -/
theorem numLeadingCloses_eq_zero_iff : numLeadingCloses t = 0 ↔ ∀ i, ¬IsLeadingClose t i := by
  rw [numLeadingCloses, List.countP_eq_zero]
  simp only [List.mem_range, decide_eq_true_eq]
  refine ⟨fun h i hi => h i ?_ hi, fun h i _ => h i⟩
  exact (List.getElem?_eq_some_iff.1 hi.1).1

/-- The first character is a leading closing brace if and only if it is a closing brace. -/
theorem isLeadingClose_cons_zero : IsLeadingClose (c :: t) 0 ↔ c = '}' := by
  simp [IsLeadingClose]

/-- A later place is that of a leading closing brace if the first character is a blank or a closing brace,
and the place is one in the rest. -/
theorem isLeadingClose_cons_succ {i : ℕ} :
    IsLeadingClose (c :: t) (i + 1) ↔ (isBlank c = true ∨ c = '}') ∧ IsLeadingClose t i := by
  simp only [IsLeadingClose, List.getElem?_cons_succ, List.take_succ_cons, List.all_cons,
    Bool.and_eq_true, Bool.or_eq_true, decide_eq_true_eq]
  exact and_left_comm

/-- The first character of a text either is a brace that counts, or a blank, or ends the count. -/
theorem numLeadingCloses_cons (c : Char) (t : Text) :
    numLeadingCloses (c :: t) =
      if c = '}' then numLeadingCloses t + 1 else if isBlank c then numLeadingCloses t else 0 := by
  have hrest : (List.range t.length).countP (fun i => decide (IsLeadingClose (c :: t) (i + 1))) =
      if isBlank c = true ∨ c = '}' then numLeadingCloses t else 0 := by
    simp only [isLeadingClose_cons_succ]
    split
    · rename_i h
      simp only [h, true_and]
      rfl
    · rename_i h
      simp [h]
  rw [numLeadingCloses, List.length_cons, List.range_succ_eq_map, List.countP_cons, List.countP_map]
  simp only [Function.comp_def, hrest, isLeadingClose_cons_zero, Nat.succ_eq_add_one]
  by_cases hclose : c = '}' <;> by_cases hblank : isBlank c = true <;> simp [hclose, hblank]

/-- The empty line has no leading closing braces. -/
@[simp] theorem numLeadingCloses_nil : numLeadingCloses [] = 0 := rfl

/-- **What the loop over a line finds**: the braces of its part outside comments, and as long as nothing
else has been seen, the closing braces that come first there. The comment state behind the line is that
of the reading of directives.

**Proof sketch.** Along the loop. A character outside comments is the next one of the part outside
comments, and it decides alike whether further closing braces come first. -/
theorem countBraces_eq (inComment seenCode : Bool) (n : BraceCount) (t : Text) :
    countBraces inComment seenCode n t =
      ({ opens := n.opens + (liveLine inComment t).1.count '{'
         closes := n.closes + (liveLine inComment t).1.count '}'
         leadingCloses :=
          n.leadingCloses + if seenCode then 0 else numLeadingCloses (liveLine inComment t).1 },
        commentOpenAfter inComment t) := by
  unfold commentOpenAfter
  fun_induction countBraces inComment seenCode n t with
  | case1 => simp [liveLine]
  | case2 seenCode n s ih => exact ih
  | case3 seenCode n c s hend ih => rw [liveLine.eq_3 _ _ hend, ih]
  | case4 => simp [liveLine]
  | case5 seenCode n s ih => exact ih
  | case6 seenCode n s hline hblock ih =>
    rw [ih, liveLine.eq_6 _ _ hline hblock]
    simp [numLeadingCloses_cons, isBlank, Nat.add_assoc, Nat.add_comm]
  | case7 seenCode n s hline hblock _ ih =>
    rw [ih, liveLine.eq_6 _ _ hline hblock]
    cases seenCode <;> simp [numLeadingCloses_cons, Nat.add_assoc, Nat.add_comm]
  | case8 seenCode n c s hline hblock hopen hclose ih =>
    rw [ih, liveLine.eq_6 _ _ hline hblock]
    cases seenCode <;> cases hblank : isBlank c <;>
      simp [numLeadingCloses_cons, hopen, hclose, hblank]

/-- What is found on a whole line. -/
theorem countBraces_line (inComment : Bool) (t : Text) :
    countBraces inComment false .zero t =
      (⟨(liveLine inComment t).1.count '{', (liveLine inComment t).1.count '}',
        numLeadingCloses (liveLine inComment t).1⟩, commentOpenAfter inComment t) := by
  simp [countBraces_eq, BraceCount.zero]

end Indentation

end ShaderWeave
