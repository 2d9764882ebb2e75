import Mathlib.Data.List.Chain
import ShaderWeave.Proofs.Indentation.Outline
import ShaderWeave.Proofs.Scan.LineState
import ShaderWeave.Proofs.Scan.LiveText

set_option autoImplicit false

/-!
# The layout of formatted texts

What formatting keeps and what it settles: the content of the lines stays, blank lines are thinned out,
and where no brace is closed that was not opened the level of a line is the balance of the braces in
front of it, less the braces that the line closes before anything else.

## Main definitions

* `ShaderWeave.Indentation.content` — the lines that are not blank, trimmed.

## Main results

* `ShaderWeave.Indentation.content_format` — formatting keeps the content.
* `ShaderWeave.Indentation.isChain_written` — no two blank lines in a row.
* `ShaderWeave.Indentation.gap_between` — where a blank line stays.
* `ShaderWeave.Indentation.level_of_line` — the level of a line by the balance of braces.
* `ShaderWeave.format_layout` — all of this for a formatted text.
-/

namespace ShaderWeave

open Text Scan

namespace Indentation

/-! ### The content of lines -/

/-- **The content of lines**: those that are not blank, without the spaces at their ends. -/
def content (ls : List Text) : List Text :=
  (ls.map trim).filter (· ≠ [])

/-- The content of lines in two parts is that of each. -/
theorem content_append (ls ms : List Text) : content (ls ++ ms) = content ls ++ content ms := by
  simp [content]

/-- A blank line has no content. -/
theorem content_cons_of_blank {l : Text} (h : trim l = []) (ls : List Text) :
    content (l :: ls) = content ls := by
  simp [content, h]

/-- A line that is not blank is content, without the spaces at its ends. -/
theorem content_cons_of_ne_nil {l : Text} (h : trim l ≠ []) (ls : List Text) :
    content (l :: ls) = trim l :: content ls := by
  simp [content, h]

/-- The texts of an outline are the content of the lines. -/
theorem map_text_outlineFrom (st : State) (ls : List Text) :
    (outlineFrom st ls).map Entry.text = content ls := by
  induction ls generalizing st with
  | nil => rfl
  | cons l ls ih =>
    rw [outlineFrom, List.map_append, ih]
    by_cases h : trim l = []
    · rw [entryOf?_of_blank h, content_cons_of_blank h]
      rfl
    · rw [content_cons_of_ne_nil h, entryOf?, if_neg h]
      rfl

/-- A blank line that may stand somewhere has no content. -/
theorem content_gap (gap : Bool) : content (if gap then [['\n']] else []) = [] := by
  cases gap <;> decide

/-- What an entry is written as has its text as content. -/
theorem content_lines {e : Entry} (h : e.IsLine) (width : Nat) : content (e.lines width) = [e.text] := by
  rw [Entry.lines, content_append, content_gap, List.nil_append,
    content_cons_of_ne_nil (by rw [h.trim_line]; exact h.ne_nil), h.trim_line]
  rfl

/-- The content of the lines that are written is the texts of the entries. -/
theorem content_written {es : List Entry} (h : ∀ e ∈ es, e.IsLine) (width : Nat) :
    content (written width es) = es.map Entry.text := by
  induction es with
  | nil => rfl
  | cons e es ih =>
    rw [written_cons, content_append, content_lines (h e List.mem_cons_self),
      ih fun f hf => h f (List.mem_cons_of_mem _ hf)]
    rfl

/-- The content of lines that are formatted behind a state. -/
theorem content_written_outlineFrom {ls : List Text} (hls : ∀ l ∈ ls, '\n' ∉ trim l) (st : State)
    (width : Nat) : content (written width (outlineFrom st ls)) = content ls := by
  rw [content_written (isLine_of_mem_outlineFrom hls st), map_text_outlineFrom]

/-- **Formatting keeps the content.** -/
theorem content_format (width : Nat) (s : Text) :
    content (lines (format width s)) = content (lines s) := by
  rw [lines_format, outline]
  exact content_written_outlineFrom (newline_notMem_trim_lines s) _ width

/-! ### Blank lines -/

/-- The line that is written for an entry is not blank. -/
theorem Entry.IsLine.trim_line_ne_nil {e : Entry} (h : e.IsLine) (width : Nat) :
    trim (e.line width) ≠ [] := by
  rw [h.trim_line]
  exact h.ne_nil

/-- **No two blank lines in a row** are written, and no blank one at the end. -/
theorem isChain_written {es : List Entry} (h : ∀ e ∈ es, e.IsLine) (width : Nat) :
    (written width es).IsChain (fun l m => trim l ≠ [] ∨ trim m ≠ []) ∧
      ∀ l ∈ (written width es).getLast?, trim l ≠ [] := by
  induction es with
  | nil => exact ⟨.nil, fun _ hl => nomatch hl⟩
  | cons e es ih =>
    obtain ⟨hchain, hlast⟩ := ih fun f hf => h f (List.mem_cons_of_mem _ hf)
    have hline := (h e List.mem_cons_self).trim_line_ne_nil width
    have hwritten : (e.line width :: written width es).IsChain
        (fun l m => trim l ≠ [] ∨ trim m ≠ []) :=
      hchain.cons fun _ _ => .inl hline
    have hend : ∀ l ∈ (e.line width :: written width es).getLast?, trim l ≠ [] := by
      intro l hl
      rw [List.getLast?_cons, Option.mem_some] at hl
      cases hw : (written width es).getLast? with
      | none =>
        rw [hw] at hl
        exact hl ▸ hline
      | some m =>
        rw [hw] at hl
        exact hl ▸ hlast m hw
    rw [written_cons, Entry.lines]
    split
    · refine ⟨hwritten.cons fun m hm => .inr ?_, fun l hl => hend l ?_⟩
      · cases hm
        exact hline
      · rwa [List.append_assoc, List.singleton_append, List.singleton_append,
          List.getLast?_cons_cons] at hl
    · exact ⟨hwritten, hend⟩

/-- At the edge of a scope no blank line is written before the first line. -/
theorem head?_written {ls : List Text} (hls : ∀ l ∈ ls, '\n' ∉ trim l) {st : State}
    (hst : st.atEdge = true) (width : Nat) :
    ∀ l ∈ (written width (outlineFrom st ls)).head?, trim l ≠ [] := by
  induction ls generalizing st with
  | nil => exact fun _ hl => nomatch hl
  | cons l ls ih =>
    rw [outlineFrom]
    cases he : entryOf? st l with
    | none =>
      rw [next_of_blank (trim_eq_nil_of_entryOf? he)]
      exact ih (fun m hm => hls m (List.mem_cons_of_mem _ hm)) hst
    | some e =>
      have hline := isLine_of_entryOf? (hls l List.mem_cons_self) he
      have hgap : e.gap = false := by
        rw [Bool.eq_false_iff, ne_eq, gap_of_entryOf? he, hst]
        simp
      intro m hm
      rw [Option.toList_some, List.singleton_append, written_cons, Entry.lines, hgap] at hm
      cases hm
      exact hline.trim_line_ne_nil width

/-! ### Lines in their places -/

/-- The outline of lines in two parts is that of the first, and that of the second from the state behind
the first. -/
theorem outlineFrom_append (st : State) (ls ms : List Text) :
    outlineFrom st (ls ++ ms) = outlineFrom st ls ++ outlineFrom (ls.foldl next st) ms := by
  induction ls generalizing st with
  | nil => rfl
  | cons l ls ih =>
    rw [List.cons_append, outlineFrom, ih, outlineFrom, List.foldl_cons, List.append_assoc]

/-- Blank lines leave nothing but the mark that there was one. -/
theorem foldl_next_of_blank {ls : List Text} (h : content ls = []) (st : State) :
    ls.foldl next st = { st with blankSeen := st.blankSeen || !ls.isEmpty } := by
  induction ls generalizing st with
  | nil => simp
  | cons l ls ih =>
    have hl : trim l = [] := by
      by_contra hne
      rw [content_cons_of_ne_nil hne] at h
      cases h
    rw [content_cons_of_blank hl] at h
    rw [List.foldl_cons, next_of_blank hl, ih h]
    simp

/-- Lines without content have no entries. -/
theorem outlineFrom_of_blank {ls : List Text} (h : content ls = []) (st : State) :
    outlineFrom st ls = [] := by
  rw [← List.map_eq_nil_iff, map_text_outlineFrom, h]

/-- The comment state behind lines. -/
theorem inComment_foldl_next (st : State) (ls : List Text) :
    (ls.foldl next st).inComment = ls.foldl commentOpenAfter st.inComment := by
  induction ls generalizing st with
  | nil => rfl
  | cons l ls ih =>
    rw [List.foldl_cons, ih, List.foldl_cons, next, inComment_step]

/-- Behind the lines in front of another one the comment state is that of the scan of their text. -/
theorem inComment_front {s : Text} {front back : List Text} {m : Text}
    (h : lines s = front ++ m :: back) :
    (front.foldl next .start).inComment = openBehind front.flatten := by
  have hlines : IsLines (front ++ m :: back) := h ▸ isLines_lines s
  rw [inComment_foldl_next, ← foldl_commentOpenAfter_lines, lines_flatten hlines.of_append.1]
  rfl

/-- A line starts strictly inside a block comment exactly if one is open in front of it. -/
theorem insideBlock_front_iff {s : Text} {front back : List Text} {m : Text}
    (h : lines s = front ++ m :: back) (hm : trim m ≠ []) :
    InsideBlock s (byteSize front.flatten) ↔ openBehind front.flatten = true := by
  have hlines : IsLines (front ++ m :: back) := h ▸ isLines_lines s
  have hne : (m :: back).flatten ≠ [] := by
    rintro hnil
    obtain ⟨rfl, -⟩ := List.append_eq_nil_iff.1 hnil
    exact hm rfl
  rw [openBehind_iff_insideBlock (hlines.startsLine (by simp)) hne, ← List.flatten_append, ← h,
    flatten_lines]

/-- **A line in its place**: what is written of the lines before it, the blank line if there is one, the
line itself, and what is written of the lines behind it. -/
theorem lines_format_split (width : Nat) {s : Text} {front back : List Text} {m : Text} {e : Entry}
    (h : lines s = front ++ m :: back) (he : entryOf? (front.foldl next .start) m = some e) :
    lines (format width s) = written width (outlineFrom .start front) ++
      (e.lines width ++ written width (outlineFrom (next (front.foldl next .start) m) back)) := by
  rw [lines_format, outline, h, outlineFrom_append, written_append, outlineFrom, he, written_append]
  simp [written]

/-- **Where a blank line stays**: between two lines that are not blank there is one in the formatted text
exactly if there was one in the text, the first line does not open a scope at its end, and the second
one does not close a scope before anything else. -/
theorem gap_between (width : Nat) {s : Text} {front blanks back : List Text} {l m : Text}
    (h : lines s = front ++ l :: (blanks ++ m :: back)) (hl : trim l ≠ []) (hblanks : content blanks = [])
    (hm : trim m ≠ []) :
    ∃ front' l' gap m' back', lines (format width s) = front' ++ l' :: (gap ++ m' :: back') ∧
      content front' = content front ∧ trim l' = trim l ∧ content gap = [] ∧ trim m' = trim m ∧
      (gap ≠ [] ↔ blanks ≠ [] ∧ (trim l).getLast? ≠ some '{' ∧
        ∀ i, ¬IsLeadingClose (liveFrom (openBehind (front ++ l :: blanks).flatten) (trim m)) i) := by
  have hsplit : lines s = (front ++ l :: blanks) ++ m :: back := by rw [h]; simp
  have hlines := newline_notMem_trim_lines s
  have hfront : ∀ k ∈ front, '\n' ∉ trim k := fun k hk => hlines k (by rw [h]; simp [hk])
  have hnl : '\n' ∉ trim l := hlines l (by rw [h]; simp)
  have hnm : '\n' ∉ trim m := hlines m (by rw [h]; simp)
  -- the states in front of the two lines
  set st := front.foldl next .start with hst
  have hbehind : (front ++ l :: blanks).foldl next .start =
      { next st l with blankSeen := !blanks.isEmpty } := by
    rw [List.foldl_append, List.foldl_cons, ← hst, foldl_next_of_blank hblanks, next_of_written hl]
    simp
  obtain ⟨e, he⟩ : ∃ e, entryOf? st l = some e := ⟨_, if_neg hl⟩
  obtain ⟨f, hf⟩ : ∃ f, entryOf? ((front ++ l :: blanks).foldl next .start) m = some f := ⟨_, if_neg hm⟩
  have hel := isLine_of_entryOf? hnl he
  have hfl := isLine_of_entryOf? hnm hf
  have hgap : f.gap = true ↔ blanks ≠ [] ∧ (trim l).getLast? ≠ some '{' ∧
      ∀ i, ¬IsLeadingClose (liveFrom (openBehind (front ++ l :: blanks).flatten) (trim m)) i := by
    rw [← numLeadingCloses_eq_zero_iff, gap_of_entryOf? hf, State.live, ← inComment_front hsplit, ← liveLine_eq_liveFrom _ hnm, hbehind,
      next_of_written hl]
    simp
  have hwritten : written width (outlineFrom .start (front ++ l :: blanks)) =
      written width (outlineFrom .start front) ++ e.lines width := by
    rw [outlineFrom_append, outlineFrom, ← hst, he, outlineFrom_of_blank hblanks, written_append]
    simp [written]
  refine ⟨written width (outlineFrom .start front) ++ (if e.gap then [['\n']] else []), e.line width,
    (if f.gap then [['\n']] else []), f.line width,
    written width (outlineFrom (next ((front ++ l :: blanks).foldl next .start) m) back),
    ?_, ?_, ?_, ?_, ?_, ?_⟩
  · rw [lines_format_split width hsplit hf, hwritten, Entry.lines, Entry.lines]
    simp only [List.append_assoc, List.singleton_append]
  · rw [content_append, content_written_outlineFrom hfront, content_gap, List.append_nil]
  · rw [hel.trim_line, (text_of_entryOf? he).2]
  · exact content_gap f.gap
  · rw [hfl.trim_line, (text_of_entryOf? hf).2]
  · rw [← hgap]
    cases f.gap <;> simp

/-! ### Levels -/

/-- **The braces of lines by their content**, given whether a block comment is open before them. -/
def contentBraces : (inComment : Bool) → List Text → Text
  | _, [] => []
  | b, t :: ts => (liveLine b t).1.filter isBrace ++ contentBraces (commentOpenAfter b t) ts

/-- The braces of content in two parts are those of the first, and those of the second behind the comment
that the first may leave open. -/
theorem contentBraces_append (b : Bool) (ts us : List Text) :
    contentBraces b (ts ++ us) =
      contentBraces b ts ++ contentBraces (ts.foldl commentOpenAfter b) us := by
  induction ts generalizing b with
  | nil => rfl
  | cons t ts ih => rw [List.cons_append, contentBraces, ih, contentBraces, List.foldl_cons,
      List.append_assoc]

/-- A blank line leaves the comment state as it is. -/
theorem commentOpenAfter_of_blank {l : Text} (h : trim l = []) (b : Bool) : commentOpenAfter b l = b := by
  rw [← Include.commentOpenAfter_trim, h]
  cases b <;> rfl

/-- The comment state behind lines is that behind their content. -/
theorem foldl_commentOpenAfter_content (b : Bool) (ls : List Text) :
    (content ls).foldl commentOpenAfter b = ls.foldl commentOpenAfter b := by
  induction ls generalizing b with
  | nil => rfl
  | cons l ls ih =>
    by_cases h : trim l = []
    · rw [content_cons_of_blank h, ih, List.foldl_cons, commentOpenAfter_of_blank h]
    · rw [content_cons_of_ne_nil h, List.foldl_cons, ih, List.foldl_cons,
        Include.commentOpenAfter_trim]

/-- **The braces of a text** are those of the content of its lines. -/
theorem bracesFrom_flatten {ls : List Text} (h : IsLines ls) (b : Bool) :
    bracesFrom b ls.flatten = contentBraces b (content ls) := by
  induction ls generalizing b with
  | nil => rw [List.flatten_nil, bracesFrom, liveFrom_nil]; rfl
  | cons l ls ih =>
    rw [List.flatten_cons, bracesFrom_flatten_cons h, ih h.of_cons]
    by_cases hl : trim l = []
    · rw [content_cons_of_blank hl, commentOpenAfter_of_blank hl, hl]
      cases b <;> rfl
    · rw [content_cons_of_ne_nil hl, contentBraces, Include.commentOpenAfter_trim]

/-- The braces of a text can be seen line by line. -/
theorem bracesFrom_eq_contentBraces (b : Bool) (s : Text) :
    bracesFrom b s = contentBraces b (content (lines s)) := by
  rw [← bracesFrom_flatten (isLines_lines s), flatten_lines]

/-- Whether a text closes no brace that was not opened can be seen line by line. -/
instance decidableNeverNegative (s : Text) : Decidable (NeverNegative s) :=
  decidable_of_iff (∀ t ∈ (contentBraces false (content (lines s))).inits, 0 ≤ surplus t) (by
    rw [neverNegative_iff, bracesFrom_eq_contentBraces]
    simp only [List.mem_inits])

/-- **The depth behind a line**, as long as no brace is closed that was not opened. -/
theorem depth_next {st : State} {l : Text} (h : 0 ≤ st.depth + surplus (st.live l)) :
    ((next st l).depth : ℤ) = st.depth + surplus (st.live l) := by
  by_cases hl : trim l = []
  · have hlive : surplus (st.live l) = 0 := by
      rw [State.live, hl]
      cases st.inComment <;> rfl
    rw [next_of_blank hl, hlive, Int.add_zero]
  · rw [next_of_written hl]
    unfold surplus at h ⊢
    dsimp only
    omega

/-- **The depth behind lines** is the balance of their braces, as long as it does not go negative.

**Proof sketch.** Induction on the lines. The braces of the first line are a beginning of all braces, so the
depth behind it is not cut off at zero; the rest starts there. -/
theorem depth_foldl_next {ls : List Text} {st : State}
    (h : ∀ t, t <+: contentBraces st.inComment (content ls) → 0 ≤ st.depth + surplus t) :
    ((ls.foldl next st).depth : ℤ) =
      st.depth + surplus (contentBraces st.inComment (content ls)) := by
  induction ls generalizing st with
  | nil => simp [content, contentBraces, surplus]
  | cons l ls ih =>
    have hcomment : (next st l).inComment = commentOpenAfter st.inComment l := inComment_step 0 st l
    have hbraces : contentBraces st.inComment (content (l :: ls)) =
        (st.live l).filter isBrace ++ contentBraces (next st l).inComment (content ls) := by
      rw [State.live, hcomment]
      by_cases hl : trim l = []
      · rw [content_cons_of_blank hl, commentOpenAfter_of_blank hl, hl]
        cases st.inComment <;> rfl
      · rw [content_cons_of_ne_nil hl, contentBraces, Include.commentOpenAfter_trim]
    rw [hbraces] at h ⊢
    have hline := h _ (List.prefix_append _ _)
    rw [surplus_filter] at hline
    have hdepth := depth_next hline
    have hrest : ∀ t, t <+: contentBraces (next st l).inComment (content ls) →
        0 ≤ (next st l).depth + surplus t := by
      intro t ht
      have := h _ ((List.prefix_append_right_inj _).2 ht)
      rw [surplus_append, surplus_filter] at this
      omega
    rw [List.foldl_cons, ih hrest, hdepth, surplus_append, surplus_filter]
    omega

/-- The braces that a line closes before anything else are all the braces at a beginning of it. -/
theorem exists_prefix_numLeadingCloses (t : Text) :
    ∃ u, u <+: t ∧ surplus u = -(numLeadingCloses t : ℤ) := by
  induction t with
  | nil => exact ⟨[], List.prefix_refl _, rfl⟩
  | cons c t ih =>
    obtain ⟨u, hu, hsurplus⟩ := ih
    rw [numLeadingCloses_cons]
    split_ifs with hclose hblank
    · subst hclose
      refine ⟨'}' :: u, (List.cons_prefix_cons).2 ⟨rfl, hu⟩, ?_⟩
      have hadd : surplus ('}' :: u) = surplus u - 1 := by
        simp [surplus]
        omega
      rw [hadd, hsurplus]
      omega
    · refine ⟨c :: u, (List.cons_prefix_cons).2 ⟨rfl, hu⟩, ?_⟩
      have hbrace : isBrace c = false := isBrace_of_isSpace (isSpace_of_isBlank hblank)
      rw [← surplus_filter, List.filter_cons_of_neg (by simp [hbrace]), surplus_filter, hsurplus]
    · exact ⟨[], List.nil_prefix, rfl⟩

/-- **The level of a line** that starts outside block comments is the balance of the braces in front of it,
less those that it closes before anything else. -/
theorem level_of_line {s : Text} (hs : NeverNegative s) {front back : List Text} {m : Text}
    (h : lines s = front ++ m :: back) (hm : trim m ≠ []) (hopen : openBehind front.flatten = false)
    {e : Entry} (he : entryOf? (front.foldl next .start) m = some e) :
    (e.level : ℤ) =
      balance (lexemes front.flatten) - numLeadingCloses (liveText (lexemes (trim m))) := by
  have hlines : IsLines (front ++ m :: back) := h ▸ isLines_lines s
  have hnm : '\n' ∉ trim m := newline_notMem_trim_of_mem hlines (by simp)
  have hcomment := inComment_front h
  rw [hopen] at hcomment
  have hlive : (front.foldl next .start).live m = liveText (lexemes (trim m)) := by
    rw [State.live, hcomment, liveLine_eq_liveFrom _ hnm]
    rfl
  -- the braces in front of the line, those of the line, and the others
  have hall : bracesFrom false s = contentBraces false (content front) ++
      ((liveText (lexemes (trim m))).filter isBrace ++
        contentBraces (commentOpenAfter false (trim m)) (content back)) := by
    have hfold : front.foldl commentOpenAfter false = false :=
      (inComment_foldl_next .start front).symm.trans hcomment
    rw [← flatten_lines s, h, bracesFrom_flatten hlines, content_append, contentBraces_append,
      foldl_commentOpenAfter_content, hfold, content_cons_of_ne_nil hm, contentBraces, ← hlive,
      State.live, hcomment]
  rw [neverNegative_iff, hall] at hs
  have hfront : ((front.foldl next .start).depth : ℤ) = balance (lexemes front.flatten) := by
    rw [balance_lexemes, bracesFrom_flatten hlines.of_append.1, depth_foldl_next, State.start]
    · simp
    · intro t ht
      rw [State.start]
      simpa using hs t (ht.trans (List.prefix_append _ _))
  obtain ⟨u, hu, hsurplus⟩ := exists_prefix_numLeadingCloses (liveText (lexemes (trim m)))
  have hleading := hs _ ((List.prefix_append_right_inj _).2
    ((hu.filter isBrace).trans (List.prefix_append _ _)))
  rw [surplus_append, surplus_filter, hsurplus, ← bracesFrom_flatten hlines.of_append.1,
    ← balance_lexemes, ← hfront] at hleading
  unfold entryOf? at he
  rw [if_neg hm] at he
  cases he
  simp only [hcomment, Bool.false_eq_true, if_false, hlive]
  omega

end Indentation

open Indentation

/-- **The layout of a formatted text.** The content of the lines stays. No blank line stands at the start
or at the end, and no two of them follow each other. Between two lines that are not blank one stands
exactly if one stood there in the text, the first line does not end in `{`, and the second one has no
`}` before anything else outside comments. If the text closes no brace that was not opened, each line
that is not blank and starts outside block comments is indented by the balance of the braces before it,
less the number of braces that it closes before anything else: those with nothing in front of them on the
line but comments, blanks and other closing braces.

The last two parts show the place of a line by the content of the lines in front of it, which stays. A
line is taken without the spaces at its ends. -/
theorem format_layout (width : Nat) (s : Text) :
    content (lines (format width s)) = content (lines s) ∧
      (∀ l ∈ (lines (format width s)).head?, trim l ≠ []) ∧
      (∀ l ∈ (lines (format width s)).getLast?, trim l ≠ []) ∧
      (lines (format width s)).IsChain (fun l m => trim l ≠ [] ∨ trim m ≠ []) ∧
      (∀ front l blanks m back, lines s = front ++ l :: (blanks ++ m :: back) → trim l ≠ [] →
        content blanks = [] → trim m ≠ [] →
        ∃ front' l' gap m' back', lines (format width s) = front' ++ l' :: (gap ++ m' :: back') ∧
          content front' = content front ∧ trim l' = trim l ∧ content gap = [] ∧ trim m' = trim m ∧
          (gap ≠ [] ↔ blanks ≠ [] ∧ (trim l).getLast? ≠ some '{' ∧
            ∀ i, ¬IsLeadingClose (liveFrom (openBehind (front ++ l :: blanks).flatten) (trim m)) i)) ∧
      (NeverNegative s → ∀ front m back, lines s = front ++ m :: back → trim m ≠ [] →
        ¬InsideBlock s (byteSize front.flatten) →
        ∃ front' n back', lines (format width s) =
            front' ++ (List.replicate (n * width) ' ' ++ (trim m ++ ['\n'])) :: back' ∧
          content front' = content front ∧
          balance (lexemes front'.flatten) = balance (lexemes front.flatten) ∧
          (n : ℤ) = balance (lexemes front.flatten) - numLeadingCloses (liveText (lexemes (trim m)))) := by
  have hlines := newline_notMem_trim_lines s
  have hentries := isLine_of_mem_outlineFrom hlines .start
  refine ⟨content_format width s, ?_, ?_, ?_, ?_, ?_⟩
  · rw [lines_format]
    exact head?_written hlines rfl width
  · rw [lines_format]
    exact (isChain_written hentries width).2
  · rw [lines_format]
    exact (isChain_written hentries width).1
  · intro front l blanks m back h hl hblanks hm
    exact gap_between width h hl hblanks hm
  · intro hs front m back h hm houtside
    have hopen : openBehind front.flatten = false := by
      rwa [insideBlock_front_iff h hm, Bool.not_eq_true] at houtside
    obtain ⟨e, he⟩ : ∃ e, entryOf? (front.foldl next .start) m = some e := ⟨_, if_neg hm⟩
    have hsplit := lines_format_split width h he
    rw [Entry.lines, List.append_assoc, List.singleton_append, ← List.append_assoc, Entry.line,
      (text_of_entryOf? he).2] at hsplit
    have hcontent : content (written width (outlineFrom .start front) ++
        if e.gap then [['\n']] else []) = content front := by
      rw [content_append, content_written_outlineFrom fun l hl => hlines l (by rw [h]; simp [hl]),
        content_gap, List.append_nil]
    have hfront : IsLines front := by
      have := isLines_lines s
      rw [h] at this
      exact this.of_append.1
    have hfront' := isLines_lines (format width s)
    rw [hsplit] at hfront'
    refine ⟨_, e.level, _, hsplit, hcontent, ?_, level_of_line hs h hm hopen he⟩
    rw [balance_lexemes, bracesFrom_flatten hfront'.of_append.1, hcontent, balance_lexemes,
      bracesFrom_flatten hfront]

/-! ### Scopes and comments -/

/-- A text with two scopes, blank lines, and braces in comments. -/
def branching : Text :=
  "if (a) \x7b // \x7d\n\nb();\n\n\n/* \x7b\n*/ \x7d else \x7b c();\n\n/* d */ \x7d".toList

/-- Its last line closes the scope that is open in front of it before anything else, so it is not indented
and the blank line in front of it goes; one of the two blank lines behind `b();` stays. -/
theorem format_layout_branching :
    NeverNegative branching ∧ ¬InsideBlock branching 15 ∧ ¬InsideBlock branching 45 ∧
      (∃ front back, lines (format 2 branching) = front ++ "  b();\n".toList :: back) ∧
      (∃ front back, lines (format 2 branching) = front ++ "/* d */ \x7d\n".toList :: back) ∧
      (∃ front first gap second back,
        lines (format 2 branching) = front ++ first :: (gap ++ second :: back) ∧
          trim first = "b();".toList ∧ content gap = [] ∧ gap ≠ [] ∧ trim second = "/* \x7b".toList) ∧
      ∃ front first second back,
        lines (format 2 branching) = front ++ first :: second :: back ∧
          trim first = "*/ \x7d else \x7b c();".toList ∧ trim second = "/* d */ \x7d".toList := by
  let ls := lines branching
  have hlevel : ls = ls.take 2 ++ "b();\n".toList :: ls.drop 3 := by decide
  have hlast : ls = ls.take 8 ++ "/* d */ \x7d".toList :: [] := by decide
  have hkept : ls = ls.take 2 ++ "b();\n".toList ::
      ([['\n'], ['\n']] ++ "/* \x7b\n".toList :: ls.drop 6) := by
    decide
  have hgone : ls = ls.take 6 ++ "*/ \x7d else \x7b c();\n".toList ::
      ([['\n']] ++ "/* d */ \x7d".toList :: []) := by
    decide
  have hnever : NeverNegative branching := by decide
  -- the comment states, balances and leading braces in front of the lines, computed line by line
  have houtside : ∀ {front back : List Text} {m : Text}, ls = front ++ m :: back → trim m ≠ [] →
      (lines front.flatten).foldl commentOpenAfter false = false →
      ¬InsideBlock branching (byteSize front.flatten) := fun h hm hopen => by
    rw [insideBlock_front_iff h hm, ← foldl_commentOpenAfter_lines, hopen]
    exact Bool.false_ne_true
  have hbalance : ∀ u : Text, balance (lexemes u) = surplus (contentBraces false (content (lines u))) :=
    fun u => by rw [balance_lexemes, bracesFrom_eq_contentBraces]
  have hcloses : ∀ t : Text, '\n' ∉ t → liveText (lexemes t) = (liveLine false t).1 := fun t ht =>
    (liveLine_eq_liveFrom false ht).symm
  have hfirst := houtside hlevel (by decide) (by decide)
  have hsecond := houtside hlast (by decide) (by decide)
  obtain ⟨-, -, -, -, hgaps, hlevels⟩ := format_layout 2 branching
  refine ⟨hnever, hfirst, hsecond, ?_, ?_, ?_, ?_⟩
  · obtain ⟨front', n, back', hwritten, -, -, hn⟩ := hlevels hnever _ _ _ hlevel (by decide) hfirst
    rw [hbalance, hcloses _ (by decide)] at hn
    obtain rfl : n = 1 := by
      have hcount : surplus (contentBraces false (content (lines (ls.take 2).flatten))) -
          (numLeadingCloses (liveLine false (trim "b();\n".toList)).1 : ℤ) = 1 := by decide
      omega
    exact ⟨front', back', hwritten⟩
  · obtain ⟨front', n, back', hwritten, -, -, hn⟩ := hlevels hnever _ _ _ hlast (by decide) hsecond
    rw [hbalance, hcloses _ (by decide)] at hn
    obtain rfl : n = 0 := by
      have hcount : surplus (contentBraces false (content (lines (ls.take 8).flatten))) -
          (numLeadingCloses (liveLine false (trim "/* d */ \x7d".toList)).1 : ℤ) = 0 := by decide
      omega
    exact ⟨front', back', hwritten⟩
  · obtain ⟨front', first, gap, second, back', hwritten, -, hfirst, hblank, hsecond, hstays⟩ :=
      hgaps _ _ _ _ _ hkept (by decide) (by decide) (by decide)
    refine ⟨front', first, gap, second, back', hwritten, hfirst, hblank, hstays.2 ⟨by simp, by decide, ?_⟩,
      hsecond⟩
    rw [← numLeadingCloses_eq_zero_iff, ← foldl_commentOpenAfter_lines,
      ← liveLine_eq_liveFrom _ (by decide)]
    decide
  · obtain ⟨front', first, gap, second, back', hwritten, -, hfirst, -, hsecond, hstays⟩ :=
      hgaps _ _ _ _ _ hgone (by decide) (by decide) (by decide)
    obtain rfl : gap = [] := by
      by_contra hne
      have hnone := (hstays.1 hne).2.2
      rw [← numLeadingCloses_eq_zero_iff, ← foldl_commentOpenAfter_lines,
        ← liveLine_eq_liveFrom _ (by decide)] at hnone
      exact absurd hnone (by decide)
    exact ⟨front', first, second, back', hwritten, hfirst, hsecond⟩

end ShaderWeave
