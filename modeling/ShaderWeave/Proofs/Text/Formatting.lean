import ShaderWeave.Indentation
import ShaderWeave.Proofs.Text.Lines
import ShaderWeave.Proofs.Text.Reflow

set_option autoImplicit false

/-!
# Formatted texts

Formatting changes the spaces at the ends of lines and drops blank lines. If all spaces are blanks, the
result is a reflow of the text: between two characters that are no blanks there is a newline in the
result exactly if there was one in the text, and otherwise what stands between them stays.

## Main definitions

* `ShaderWeave.Text.isBlankSpaced` — the spaces of a text are all blanks.

## Main results

* `ShaderWeave.Indentation.step_text` — what is written for one line.
* `ShaderWeave.Indentation.run_reflow` — what is written for lines is a reflow of them.
* `ShaderWeave.format_reflow` — a formatted text is a reflow of the text.
-/

namespace ShaderWeave

open Text Scan

namespace Text

/-- **Whether the spaces of a text are all blanks**: spaces, tabs, newlines, form feeds and carriage
returns. -/
def isBlankSpaced (s : Text) : Bool :=
  s.all fun c => !isSpace c || isBlank c

/-- The spaces of two texts in a row are blanks if those of each are. -/
theorem isBlankSpaced_append {s t : Text} :
    isBlankSpaced (s ++ t) = (isBlankSpaced s && isBlankSpaced t) :=
  List.all_append

/-- A text of spaces that are all blanks is a text of blanks. -/
theorem all_isBlank_of_isBlankSpaced {s : Text} (h : isBlankSpaced s = true)
    (hs : s.all isSpace = true) : s.all isBlank = true := by
  refine List.all_eq_true.2 fun c hc => ?_
  have := List.all_eq_true.1 h c hc
  rwa [List.all_eq_true.1 hs c hc] at this

/-- A newline in the blanks before two texts makes up for those that they start with. -/
theorem Reflow.newline_of_skipBlanks {u v s t : Text} (hu : u.all isBlank = true)
    (hv : v.all isBlank = true) (hnu : '\n' ∈ u) (hnv : '\n' ∈ v)
    (h : Reflow (Text.skipBlanks s) (Text.skipBlanks t)) : Reflow (u ++ s) (v ++ t) := by
  have hsplit : ∀ s : Text, s.takeWhile isBlank ++ Text.skipBlanks s = s := fun s =>
    List.takeWhile_append_dropWhile
  have hall : ∀ u s : Text, u.all isBlank = true → (u ++ s.takeWhile isBlank).all isBlank = true :=
    fun u s hu => by rw [List.all_append, hu, List.all_takeWhile, Bool.and_self]
  rw [← hsplit s, ← hsplit t, ← List.append_assoc, ← List.append_assoc]
  exact .newline (hall u s hu) (hall v t hv) (List.mem_append_left _ hnu)
    (List.mem_append_left _ hnv) h

/-- The trimmed part of a text in which all spaces are blanks stands between blanks. -/
theorem exists_trim_of_isBlankSpaced {s : Text} (h : isBlankSpaced s = true) :
    ∃ u v, u.all isBlank = true ∧ v.all isBlank = true ∧ s = u ++ (trim s ++ v) := by
  obtain ⟨u, v, hu, hv, hs⟩ := exists_trim s
  rw [hs, isBlankSpaced_append, isBlankSpaced_append, Bool.and_eq_true, Bool.and_eq_true] at h
  exact ⟨u, v, all_isBlank_of_isBlankSpaced h.1 hu, all_isBlank_of_isBlankSpaced h.2.2 hv, hs⟩

/-- No blank stands at the start of a trimmed text. -/
theorem skipBlanks_trim_append {l : Text} (h : trim l ≠ []) (s : Text) :
    Text.skipBlanks (trim l ++ s) = trim l ++ s := by
  obtain ⟨c, r, hc⟩ := List.exists_cons_of_ne_nil h
  have hspace : isSpace c = false := (isTrimmed_iff.1 (isTrimmed_trim l)).1 c (by rw [hc]; rfl)
  rw [hc, List.cons_append, skipBlanks_cons]
  exact Bool.eq_false_iff.2 fun hb => by simp [isSpace_of_isBlank hb] at hspace

/-- The newline at the end of a text stands behind its trimmed part. -/
theorem newline_mem_of_getLast? {l u v : Text} (hl : l = u ++ (trim l ++ v)) (h : trim l ≠ [])
    (hlast : l.getLast? = some '\n') : '\n' ∈ v := by
  rcases List.eq_nil_or_concat' v with rfl | ⟨w, c, rfl⟩
  · rw [List.append_nil] at hl
    rw [hl, List.getLast?_append, List.getLast?_eq_some_getLast h, Option.some_or] at hlast
    have := (isTrimmed_iff.1 (isTrimmed_trim l)).2 '\n'
      (by rw [List.getLast?_eq_some_getLast h, hlast]; rfl)
    exact absurd this (by decide)
  · rw [hl, ← List.append_assoc, ← List.append_assoc, List.getLast?_concat] at hlast
    cases hlast
    simp

end Text

namespace Indentation

/-- **What is written for one line**: nothing for a blank one, and otherwise blanks, the trimmed line
and a newline. -/
theorem step_text (width : Nat) (st : State) (l : Text) :
    (trim l = [] ∧ (step width st l).1 = []) ∨
      (trim l ≠ [] ∧ ∃ pad : Text, pad.all isBlank = true ∧
        (step width st l).1 = pad ++ (trim l ++ ['\n'])) := by
  unfold step
  by_cases h : trim l = []
  · exact .inl ⟨h, by rw [if_pos h]⟩
  · refine .inr ⟨h, ?_⟩
    simp only [if_neg h]
    refine ⟨_ ++ List.replicate _ ' ', ?_, by rw [List.append_assoc]⟩
    have hpad : ∀ n, (List.replicate n ' ').all isBlank = true := fun n =>
      List.all_eq_true.2 fun c hc => by rw [List.eq_of_mem_replicate hc]; rfl
    rw [List.all_append, hpad, Bool.and_true]
    split <;> rfl

/-- **One line and what is written for it**, in front of reflows of each other. Only the last line may
be without a newline. -/
theorem step_reflow (width : Nat) (st : State) {l s t : Text} (hl : isBlankSpaced l = true)
    (hend : l.getLast? = some '\n' ∨ s = [] ∧ t = [])
    (h : Reflow (skipBlanks s) (skipBlanks t)) :
    Reflow (skipBlanks (l ++ s)) (skipBlanks ((step width st l).1 ++ t)) := by
  obtain ⟨u, v, hu, hv, hsplit⟩ := exists_trim_of_isBlankSpaced hl
  rcases step_text width st l with ⟨hnil, hstep⟩ | ⟨hne, pad, hpad, hstep⟩
  · rw [hnil, List.nil_append] at hsplit
    have hblank : l.all isBlank = true := by rw [hsplit, List.all_append, hu, hv]; rfl
    rw [skipBlanks_append hblank, hstep]
    exact h
  · have hline : skipBlanks (l ++ s) = trim l ++ (v ++ s) := by
      have hassoc : l ++ s = u ++ (trim l ++ (v ++ s)) := by
        conv_lhs => rw [hsplit]
        simp only [List.append_assoc]
      rw [hassoc, skipBlanks_append hu, skipBlanks_trim_append hne]
    have hwritten : skipBlanks ((step width st l).1 ++ t) = trim l ++ (['\n'] ++ t) := by
      rw [hstep, List.append_assoc, List.append_assoc, skipBlanks_append hpad,
        skipBlanks_trim_append hne]
    rw [hline, hwritten]
    refine .append_left _ ?_
    -- behind the trimmed line: a newline in both texts, or nothing but blanks
    rcases hend with hlast | ⟨rfl, rfl⟩
    · exact .newline_of_skipBlanks hv rfl (newline_mem_of_getLast? hsplit hne hlast)
        List.mem_cons_self h
    · rw [List.append_nil]
      exact .blanks hv rfl

/-- **What is written for lines is a reflow of them**, blanks at the start aside. -/
theorem run_reflow (width : Nat) {ls : List Text} (hls : IsLines ls) (h : isBlankSpaced ls.flatten = true)
    (st : State) : Reflow (skipBlanks ls.flatten) (skipBlanks (run width st ls)) := by
  induction hls generalizing st with
  | nil => exact .blanks rfl rfl
  | @last l _ _ =>
    rw [List.flatten_singleton] at h
    rw [List.flatten_cons, run]
    exact step_reflow width st h (.inr ⟨rfl, rfl⟩) (.blanks rfl rfl)
  | @cons u ls _ _ ih =>
    rw [List.flatten_cons, isBlankSpaced_append, Bool.and_eq_true] at h
    rw [List.flatten_cons, run]
    exact step_reflow width st h.1 (.inl List.getLast?_concat) (ih h.2 _)

end Indentation

/-- **A formatted text is a reflow of the text**, blanks at the start aside. -/
theorem format_reflow (width : Nat) {s : Text} (h : isBlankSpaced s = true) :
    Reflow (skipBlanks s) (skipBlanks (format width s)) := by
  have hrun := Indentation.run_reflow width (isLines_lines s) (by rwa [flatten_lines])
    Indentation.State.start
  rwa [flatten_lines] at hrun

end ShaderWeave
