import ShaderWeave.Proofs.Include.Place

set_option autoImplicit false

/-!
# Live text

The *live text* is what stands outside comments. One pass over the template finds it by stepping over
the comments of the whole text, another one line by line, with the mark whether a block comment is open.
Both find the same characters on each line; only the newline of a line comment is part of the comment
for the first pass.

The braces of the live text have a *balance*: how many more are opened than closed.

## Main definitions

* `ShaderWeave.Scan.liveText` — the live text of lexemes.
* `ShaderWeave.Scan.liveFrom` — the live text of a text, given whether a block comment is open at its
  start.
* `ShaderWeave.Scan.balance` — the balance of the braces of lexemes.
* `ShaderWeave.Scan.NeverNegative` — no brace is closed that was not opened.

## Main results

* `ShaderWeave.Scan.filter_liveFrom_append` — the live text of a line and of what follows it.
* `ShaderWeave.Scan.liveLine_eq_liveFrom` — the two passes find the same on a line.
* `ShaderWeave.Scan.filter_liveLine_trim` — spaces at the ends of a line do not matter.
-/

namespace ShaderWeave

namespace Scan

open Text

/-! ### The live text -/

/-- The character of a lexeme outside comments. -/
def Lexeme.live? : Lexeme → Option Char
  | .live c => some c
  | .comment _ => none

/-- **The live text of lexemes**: their characters outside comments. -/
def liveText (ls : List Lexeme) : Text :=
  ls.filterMap Lexeme.live?

/-- **The live text of a text**, given whether a block comment is open at its start. -/
def liveFrom (inComment : Bool) (s : Text) : Text :=
  liveText (lexemes (if inComment then '/' :: '*' :: s else s))

/-- An open block comment is stepped over up to its end. -/
theorem liveFrom_true (s : Text) : liveFrom true s = liveFrom false (throughBlockEnd s).2 := by
  have hcomment : comment? ('/' :: '*' :: s) =
      some ('/' :: '*' :: (throughBlockEnd s).1, (throughBlockEnd s).2) := rfl
  rw [liveFrom, if_pos rfl, lexemes_of_comment? hcomment]
  rfl

/-- Inside a block comment a character that does not start its end does not matter. -/
theorem liveFrom_true_cons {c : Char} {s : Text} (h : after? ['*', '/'] (c :: s) = none) :
    liveFrom true (c :: s) = liveFrom true s := by
  rw [liveFrom_true, liveFrom_true, throughBlockEnd]
  rintro r rfl rfl
  simp [after?] at h

/-- A character at which no comment starts is live. -/
theorem liveFrom_live_cons {c : Char} {s : Text} (h : comment? (c :: s) = none) :
    liveFrom false (c :: s) = c :: liveFrom false s := by
  rw [liveFrom, if_neg Bool.false_ne_true, lexemes_of_live h]
  rfl

/-- The empty text has no live text, whether a comment is open or not. -/
theorem liveFrom_nil (b : Bool) : liveFrom b [] = [] := by
  cases b with
  | false => simp [liveFrom, lexemes, liveText]
  | true =>
    rw [liveFrom_true]
    simp [throughBlockEnd, liveFrom, lexemes, liveText]

/-! ### Line by line -/

variable {p : Char → Bool}

/-- A newline leaves the state as it is. -/
theorem filter_liveFrom_newline (hp : p '\n' = false) (b : Bool) (s : Text) :
    (liveFrom b ('\n' :: s)).filter p = (liveFrom b s).filter p := by
  cases b with
  | true => rw [liveFrom_true_cons rfl]
  | false =>
    rw [liveFrom_live_cons (comment?_cons_eq_none (by decide) s), List.filter_cons_of_neg (by simp [hp])]

/-- **The live text of a part of a line and of what follows it**, if the line ends there. What is looked
for is no newline, which a line comment takes in.

**Proof sketch.** Along the pass over the part. Inside a comment its end is found or a character does not
matter; a comment that starts is a state again; a line comment reaches to the end of the line. -/
theorem filter_liveFrom_append (b : Bool) {u v : Text} (hu : '\n' ∉ u) (hv : EndsLine v)
    (hp : ∀ c ∈ v.head?, p c = false) :
    (liveFrom b (u ++ v)).filter p =
      (liveLine b u).1.filter p ++ (liveFrom (commentOpenAfter b u) v).filter p := by
  unfold commentOpenAfter
  fun_induction liveLine b u with
  | case1 => rfl
  | case2 u ih =>
    rw [← ih (by simp_all), liveFrom_true]
    rfl
  | case3 c u hend ih =>
    -- the end of the comment is not put together where the texts meet
    have hnone : after? ['*', '/'] (c :: u) = none := by
      rw [Option.eq_none_iff_forall_ne_some]
      intro r hr
      obtain ⟨hc, hr⟩ := List.cons.inj (after?_eq_some_iff.1 hr)
      exact hend r hc hr
    rw [← ih (by simp_all), List.cons_append]
    exact congrArg (List.filter p) (liveFrom_true_cons (after?_append_eq_none (by decide) hv hnone))
  | case4 u =>
    have hu : '\n' ∉ u := by simp_all
    rw [List.filter_nil, List.nil_append]
    cases v with
    | nil =>
      -- a line comment goes to the end of the text
      have hcomment : comment? ('/' :: '/' :: u) = some ('/' :: '/' :: u, []) := by
        rw [comment?, throughNewline_of_unended hu]
      rw [List.append_nil, liveFrom, if_neg Bool.false_ne_true, lexemes_of_comment? hcomment]
      rfl
    | cons c v =>
      obtain rfl := hv c rfl
      -- or to the newline that the second text starts with
      have hcomment : comment? ('/' :: '/' :: (u ++ '\n' :: v)) =
          some ('/' :: '/' :: (u ++ ['\n']), v) := by
        rw [comment?, throughNewline_of_notMem hu]
      rw [filter_liveFrom_newline (hp '\n' rfl), List.cons_append, List.cons_append, liveFrom,
        if_neg Bool.false_ne_true, lexemes_of_comment? hcomment]
      rfl
  | case5 u ih =>
    rw [← ih (by simp_all)]
    rfl
  | case6 c u hline hblock ih =>
    -- no comment is put together where the texts meet
    have hnone : comment? (c :: (u ++ v)) = none := by
      have hslash : after? ['/', '/'] (c :: u) = none := by
        rw [Option.eq_none_iff_forall_ne_some]
        intro r hr
        obtain ⟨hc, hr⟩ := List.cons.inj (after?_eq_some_iff.1 hr)
        exact hline r hc hr
      have hstar : after? ['/', '*'] (c :: u) = none := by
        rw [Option.eq_none_iff_forall_ne_some]
        intro r hr
        obtain ⟨hc, hr⟩ := List.cons.inj (after?_eq_some_iff.1 hr)
        exact hblock r hc hr
      exact comment?_eq_none_iff.2 ⟨after?_append_eq_none (by decide) hv hslash,
        after?_append_eq_none (by decide) hv hstar⟩
    rw [List.cons_append, liveFrom_live_cons hnone]
    by_cases hc : p c = true
    · rw [List.filter_cons_of_pos hc, List.filter_cons_of_pos hc, ih (by simp_all), List.cons_append]
    · rw [List.filter_cons_of_neg hc, List.filter_cons_of_neg hc, ih (by simp_all)]

/-- **The two passes find the same on a line.** -/
theorem liveLine_eq_liveFrom (b : Bool) {l : Text} (h : '\n' ∉ l) :
    (liveLine b l).1 = liveFrom b l := by
  have := filter_liveFrom_append (p := fun _ => true) b h endsLine_nil (by simp)
  simpa [liveFrom_nil] using this.symm

/-! ### Spaces at the ends of a line -/

/-- A character at the end of a line is not found if it is not looked for. -/
theorem filter_liveLine_concat {e : Char} (hslash : e ≠ '/') (hstar : e ≠ '*') (hp : p e = false)
    (b : Bool) (l : Text) : (liveLine b (l ++ [e])).1.filter p = (liveLine b l).1.filter p := by
  obtain ⟨x, hx, hlive⟩ := Include.liveLine_concat hslash hstar b l
  rw [hlive, List.filter_append]
  rcases hx with rfl | rfl <;> simp [hp]

/-- Spaces do not belong to delimiters of comments. -/
theorem ne_slash_and_ne_star {c : Char} (h : isSpace c = true) : c ≠ '/' ∧ c ≠ '*' := by
  constructor <;> rintro rfl <;> exact absurd h (by decide)

/-- Spaces at the end of a line change nothing in its live text but spaces. -/
theorem filter_liveLine_append_spaces (hp : ∀ c, isSpace c = true → p c = false) {v : Text}
    (hv : v.all isSpace = true) (b : Bool) (l : Text) :
    (liveLine b (l ++ v)).1.filter p = (liveLine b l).1.filter p := by
  induction v generalizing l with
  | nil => rw [List.append_nil]
  | cons c v ih =>
    rw [List.all_cons, Bool.and_eq_true] at hv
    rw [← List.singleton_append, ← List.append_assoc, ih hv.2]
    obtain ⟨hslash, hstar⟩ := ne_slash_and_ne_star hv.1
    exact filter_liveLine_concat hslash hstar (hp c hv.1) b l

/-- Spaces at the start of a line change nothing in its live text but spaces. -/
theorem filter_liveLine_spaces_append (hp : ∀ c, isSpace c = true → p c = false) {w : Text}
    (hw : w.all isSpace = true) (b : Bool) (l : Text) :
    (liveLine b (w ++ l)).1.filter p = (liveLine b l).1.filter p := by
  induction w with
  | nil => rfl
  | cons c w ih =>
    rw [List.all_cons, Bool.and_eq_true] at hw
    obtain ⟨hslash, hstar⟩ := ne_slash_and_ne_star hw.1
    rw [← ih hw.2, List.cons_append]
    cases b with
    | true => rw [liveLine.eq_3 _ _ fun r h => absurd h hstar]
    | false =>
      rw [liveLine.eq_6 _ _ (fun r h => absurd h hslash) fun r h => absurd h hslash,
        List.filter_cons_of_neg (by simp [hp c hw.1])]

/-- **Spaces at the ends of a line do not matter** to what is looked for in its live text, if that is no
space. -/
theorem filter_liveLine_trim (hp : ∀ c, isSpace c = true → p c = false) (b : Bool) (l : Text) :
    (liveLine b (trim l)).1.filter p = (liveLine b l).1.filter p := by
  obtain ⟨u, v, hu, hv, hl⟩ := exists_trim l
  conv_rhs => rw [hl]
  rw [filter_liveLine_spaces_append hp hu, filter_liveLine_append_spaces hp hv]

/-- **The live text of lines, one line at a time**, as far as it is looked for and no space is. -/
theorem filter_liveFrom_flatten_cons (hp : ∀ c, isSpace c = true → p c = false) {l : Text}
    {ls : List Text} (h : IsLines (l :: ls)) (b : Bool) :
    (liveFrom b (l ++ ls.flatten)).filter p =
      (liveLine b (trim l)).1.filter p ++ (liveFrom (commentOpenAfter b l) ls.flatten).filter p := by
  have hnewline : p '\n' = false := hp '\n' rfl
  rw [filter_liveLine_trim hp]
  generalize hall : l :: ls = all at h
  cases h with
  | nil => cases hall
  | @last u _ hu =>
    obtain ⟨rfl, rfl⟩ := List.cons.inj hall
    exact filter_liveFrom_append b hu endsLine_nil (by simp)
  | @cons u _ hu _ =>
    obtain ⟨rfl, rfl⟩ := List.cons.inj hall
    rw [List.append_assoc, List.singleton_append,
      filter_liveFrom_append b hu (endsLine_newline _) (by simp [hnewline]),
      filter_liveFrom_newline hnewline, filter_liveLine_concat (by decide) (by decide) hnewline,
      Include.commentOpenAfter_append_newline]

/-! ### The balance of braces -/

/-- A brace. -/
def isBrace (c : Char) : Bool :=
  c = '{' || c = '}'

/-- A space is no brace. -/
theorem isBrace_of_isSpace {c : Char} (h : isSpace c = true) : isBrace c = false := by
  unfold isBrace
  rw [Bool.or_eq_false_iff, decide_eq_false_iff_not, decide_eq_false_iff_not]
  constructor <;> rintro rfl <;> exact absurd h (by decide)

/-- How many more braces a text opens than it closes, comments or not. -/
def surplus (t : Text) : ℤ :=
  t.count '{' - t.count '}'

/-- The surplus of two texts in a row is the sum of theirs. -/
theorem surplus_append (t u : Text) : surplus (t ++ u) = surplus t + surplus u := by
  simp only [surplus, List.count_append]
  omega

/-- Only the braces matter. -/
theorem surplus_filter (t : Text) : surplus (t.filter isBrace) = surplus t := by
  rw [surplus, List.count_filter rfl, List.count_filter rfl, surplus]

/-- **The balance of the braces of lexemes**: how many more are opened than closed outside comments. -/
def balance (ls : List Lexeme) : ℤ :=
  surplus (liveText ls)

/-- **A text that closes no brace that was not opened**: up to no place in it there are more closing
than opening braces outside comments. -/
def NeverNegative (s : Text) : Prop :=
  ∀ ls, ls <+: lexemes s → 0 ≤ balance ls

/-- The braces of a text outside comments, given whether a block comment is open at its start. -/
def bracesFrom (inComment : Bool) (s : Text) : Text :=
  (liveFrom inComment s).filter isBrace

/-- The balance of the lexemes of a text is the surplus of its braces outside comments. -/
theorem balance_lexemes (s : Text) : balance (lexemes s) = surplus (bracesFrom false s) := by
  rw [bracesFrom, surplus_filter]
  rfl

/-- A text never goes negative exactly if its braces do not. -/
theorem neverNegative_iff {s : Text} :
    NeverNegative s ↔ ∀ t, t <+: bracesFrom false s → 0 ≤ surplus t := by
  constructor
  · intro h t ht
    obtain ⟨u, hu, rfl⟩ := List.prefix_filter_iff.1 ht
    obtain ⟨ls, hls, rfl⟩ := List.prefix_filterMap_iff.1 hu
    rw [surplus_filter]
    exact h ls hls
  · intro h ls hls
    have := h _ ((hls.filterMap Lexeme.live?).filter isBrace)
    rwa [surplus_filter] at this

/-- **The braces of a text, line by line.** -/
theorem bracesFrom_flatten_cons {l : Text} {ls : List Text} (h : IsLines (l :: ls)) (b : Bool) :
    bracesFrom b (l ++ ls.flatten) =
      (liveLine b (trim l)).1.filter isBrace ++ bracesFrom (commentOpenAfter b l) ls.flatten :=
  filter_liveFrom_flatten_cons (fun _ => isBrace_of_isSpace) h b

end Scan

end ShaderWeave
