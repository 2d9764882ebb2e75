import ShaderWeave.Proofs.Indentation.Braces
import ShaderWeave.Proofs.Text.Lines
import ShaderWeave.Proofs.Text.Trim

set_option autoImplicit false

/-!
# Outlines

Formatting first settles the *outline* of a text: which lines are written, at which level, and before
which of them a blank line stands. The width of a level only comes in when the outline is written.
Reading the lines that an outline is written as gives the outline back, so all that a formatted text
keeps of the text is its outline, and formatting once more writes it with the new width.

## Main definitions

* `ShaderWeave.Indentation.Entry` — one line of an outline.
* `ShaderWeave.Indentation.outlineFrom`, `ShaderWeave.Indentation.outline` — the outline of lines and
  of a text.
* `ShaderWeave.Indentation.written` — the lines that an outline is written as.

## Main results

* `ShaderWeave.Indentation.lines_format` — the lines of a formatted text are its outline, written.
* `ShaderWeave.Indentation.outlineFrom_written` — the outline of a written outline.
* `ShaderWeave.format_format` — formatting forgets the width of an earlier formatting.
-/

namespace ShaderWeave

open Text Scan

namespace Indentation

/-! ### The outline of lines -/

/-- **A line of an outline.** -/
structure Entry where
  /-- Whether a blank line stands before it. -/
  gap : Bool
  /-- Its level of indentation. -/
  level : Nat
  /-- The line without the spaces at its ends. -/
  text : Text
  deriving DecidableEq

/-- The live part of a line, without the spaces at its ends. -/
def State.live (st : State) (l : Text) : Text :=
  (liveLine st.inComment (trim l)).1

/-- **What a line becomes in the outline**; a blank one is left out. -/
def entryOf? (st : State) (l : Text) : Option Entry :=
  if trim l = [] then none
  else some
    { gap := st.blankSeen && !st.atEdge && numLeadingCloses (st.live l) = 0
      level := if st.inComment then st.depth else st.depth - numLeadingCloses (st.live l)
      text := trim l }

/-- The state behind a line, which does not depend on the width of a level. -/
def next (st : State) (l : Text) : State :=
  (step 0 st l).2

/-- **The outline of lines** behind a state. -/
def outlineFrom : State → List Text → List Entry
  | _, [] => []
  | st, l :: ls => (entryOf? st l).toList ++ outlineFrom (next st l) ls

/-- **The outline of a text.** -/
def outline (s : Text) : List Entry :=
  outlineFrom .start (lines s)

/-! ### An outline written -/

namespace Entry

/-- The line of an entry. -/
def line (width : Nat) (e : Entry) : Text :=
  List.replicate (e.level * width) ' ' ++ (e.text ++ ['\n'])

/-- **The lines that an entry is written as**: itself, behind a blank line if there is one. -/
def lines (width : Nat) (e : Entry) : List Text :=
  (if e.gap then [['\n']] else []) ++ [e.line width]

end Entry

/-- **The lines that an outline is written as.** -/
def written (width : Nat) (es : List Entry) : List Text :=
  es.flatMap (Entry.lines width)

/-- The first entry is written in front of the others. -/
theorem written_cons (width : Nat) (e : Entry) (es : List Entry) :
    written width (e :: es) = e.lines width ++ written width es :=
  rfl

/-- Two outlines in a row are written one behind the other. -/
theorem written_append (width : Nat) (es fs : List Entry) :
    written width (es ++ fs) = written width es ++ written width fs :=
  List.flatMap_append

/-- One line formatted is its entry, written, and the state behind it. -/
theorem step_eq (width : Nat) (st : State) (l : Text) :
    step width st l = ((written width (entryOf? st l).toList).flatten, next st l) := by
  unfold next step entryOf?
  have hlines : ∀ (gap : Bool) (pad t : Text), (if gap then ['\n'] else []) ++ pad ++ t ++ ['\n'] =
      ((if gap then [['\n']] else []) ++ [pad ++ (t ++ ['\n'])]).flatten := by
    intro gap pad t
    cases gap <;> simp
  by_cases h : trim l = []
  · simp [h, written]
  · simp only [if_neg h, countBraces_line, Option.toList_some, written, List.flatMap_cons,
      List.flatMap_nil, List.append_nil, Prod.mk.injEq, and_true]
    exact hlines _ _ _

/-- Lines formatted are their outline, written. -/
theorem run_eq (width : Nat) (st : State) (ls : List Text) :
    run width st ls = (written width (outlineFrom st ls)).flatten := by
  induction ls generalizing st with
  | nil => rfl
  | cons l ls ih =>
    rw [run, step_eq, ih, outlineFrom, written_append, List.flatten_append]

/-! ### Entries of lines -/

/-- A blank line has no entry. -/
theorem entryOf?_of_blank {l : Text} (h : trim l = []) (st : State) : entryOf? st l = none :=
  if_pos h

/-- Of a blank line it is only remembered that it was seen. -/
theorem next_of_blank {l : Text} (h : trim l = []) (st : State) :
    next st l = { st with blankSeen := true } := by
  rw [next, step, if_pos h]

/-- The state behind a line that is written. -/
theorem next_of_written {l : Text} (h : trim l ≠ []) (st : State) :
    next st l =
      { depth := st.depth + (st.live l).count '{' - (st.live l).count '}'
        inComment := commentOpenAfter st.inComment (trim l)
        blankSeen := false
        atEdge := (trim l).getLast? = some '{' } := by
  rw [next, step, if_neg h, countBraces_line]
  rfl

/-- Only blank lines have no entry. -/
theorem trim_eq_nil_of_entryOf? {st : State} {l : Text} (h : entryOf? st l = none) : trim l = [] := by
  by_contra hne
  simp [entryOf?, hne] at h

/-- The entry of a line is determined by its trimmed part. -/
theorem entryOf?_congr {l m : Text} (h : trim l = trim m) (st : State) : entryOf? st l = entryOf? st m := by
  unfold entryOf? State.live
  rw [h]

/-- The state behind a line does not depend on the spaces at its ends. -/
theorem next_congr {l m : Text} (h : trim l = trim m) (st : State) : next st l = next st m := by
  unfold next step
  rw [h]

/-- A line is written as what it is without the spaces at its ends. -/
theorem text_of_entryOf? {st : State} {l : Text} {e : Entry} (h : entryOf? st l = some e) :
    trim l ≠ [] ∧ e.text = trim l := by
  unfold entryOf? at h
  split at h
  · cases h
  · rename_i hne
    cases h
    exact ⟨hne, rfl⟩

/-- **Where a blank line stays**: one was seen, it does not stand at an edge, and the line behind it does
not start with closing braces. -/
theorem gap_of_entryOf? {st : State} {l : Text} {e : Entry} (h : entryOf? st l = some e) :
    e.gap = true ↔ st.blankSeen = true ∧ st.atEdge = false ∧ numLeadingCloses (st.live l) = 0 := by
  unfold entryOf? at h
  split at h <;> cases h
  simp [and_assoc]

/-- **Entries that can be read back**: the text is a line without newlines, and trimmed. -/
structure Entry.IsLine (e : Entry) : Prop where
  ne_nil : e.text ≠ []
  trimmed : trim e.text = e.text
  newline_notMem : '\n' ∉ e.text

/-- The entries of lines can be read back. -/
theorem isLine_of_entryOf? {st : State} {l : Text} {e : Entry} (hl : '\n' ∉ trim l)
    (he : entryOf? st l = some e) : e.IsLine := by
  obtain ⟨hne, htext⟩ := text_of_entryOf? he
  rw [← htext] at hne hl
  exact ⟨hne, by rw [htext, trim_trim], hl⟩

/-- The entries of an outline can be read back if no trimmed line has a newline. -/
theorem isLine_of_mem_outlineFrom {ls : List Text} (h : ∀ l ∈ ls, '\n' ∉ trim l) (st : State) :
    ∀ e ∈ outlineFrom st ls, e.IsLine := by
  induction ls generalizing st with
  | nil => exact fun _ he => nomatch he
  | cons l ls ih =>
    intro e he
    rw [outlineFrom, List.mem_append, Option.mem_toList] at he
    rcases he with he | he
    · exact isLine_of_entryOf? (h l List.mem_cons_self) he
    · exact ih (fun m hm => h m (List.mem_cons_of_mem _ hm)) _ e he

/-! ### Reading a written outline -/

/-- The trimmed part of the line of an entry is its text. -/
theorem Entry.IsLine.trim_line {e : Entry} (h : e.IsLine) (width : Nat) :
    trim (e.line width) = e.text := by
  have hpad : (List.replicate (e.level * width) ' ').all isSpace = true :=
    List.all_eq_true.2 fun c hc => by rw [List.eq_of_mem_replicate hc]; rfl
  rw [Entry.line, ← h.trimmed]
  exact trim_eq_of_isTrimmed (isTrimmed_trim e.text) hpad (by decide)

/-- The lines of entries are lines. -/
theorem isLines_written (width : Nat) {es : List Entry} (h : ∀ e ∈ es, e.IsLine) :
    IsLines (written width es) := by
  induction es with
  | nil => exact .nil
  | cons e es ih =>
    have hes := ih fun f hf => h f (List.mem_cons_of_mem _ hf)
    have hline : IsLines (e.line width :: written width es) := by
      rw [Entry.line, ← List.append_assoc]
      refine .cons ?_ hes
      rw [List.mem_append, not_or]
      refine ⟨fun hmem => ?_, (h e List.mem_cons_self).newline_notMem⟩
      cases List.eq_of_mem_replicate hmem
    rw [written_cons, Entry.lines]
    cases e.gap with
    | false => exact hline
    | true => exact .cons (u := []) (by simp) hline

/-- **The lines of a formatted text are its outline, written.** -/
theorem lines_format (width : Nat) (s : Text) : lines (format width s) = written width (outline s) := by
  have hentries : ∀ e ∈ outline s, e.IsLine :=
    isLine_of_mem_outlineFrom (newline_notMem_trim_lines s) _
  rw [format, run_eq]
  exact lines_flatten (isLines_written width hentries)

/-- **The lines of an entry are read as that entry**, from the state in which it came up but for the
blank lines before it: these are seen again where they were kept, and where they were not it makes no
difference that they are gone. -/
theorem outlineFrom_lines_append {st : State} {l : Text} {e : Entry} (hl : '\n' ∉ trim l)
    (he : entryOf? st l = some e) (width : Nat) (ms : List Text) :
    outlineFrom { st with blankSeen := false } (e.lines width ++ ms) =
      e :: outlineFrom (next st l) ms := by
  obtain ⟨hne, htext⟩ := text_of_entryOf? he
  have hline : trim (e.line width) = trim l := by
    rw [(isLine_of_entryOf? hl he).trim_line, htext]
  -- what is left of the state when the line itself is read
  have hread : ∀ seen, entryOf? { st with blankSeen := seen } (e.line width) = some e →
      outlineFrom { st with blankSeen := seen } (e.line width :: ms) =
        e :: outlineFrom (next st l) ms := by
    intro seen hentry
    rw [outlineFrom, hentry, next_congr hline, next_of_written hne, next_of_written hne]
    rfl
  cases hgap : e.gap with
  | true =>
    have hst : { st with blankSeen := true } = st := by rw [← ((gap_of_entryOf? he).1 hgap).1]
    have hblank : trim ['\n'] = [] := by decide
    rw [Entry.lines, hgap, if_pos rfl, List.append_assoc, List.singleton_append, outlineFrom,
      entryOf?_of_blank hblank, next_of_blank hblank]
    refine hread true ?_
    rw [hst, entryOf?_congr hline, he]
  | false =>
    rw [Entry.lines, hgap]
    refine hread false ?_
    rw [entryOf?_congr hline]
    unfold entryOf? at he ⊢
    rw [if_neg hne] at he ⊢
    cases he
    simp_all [State.live]

/-- **The outline of a written outline** is that outline.

**Proof sketch.** Induction on the lines that the outline was made of. A blank one leaves no more than the
mark that one was seen. Behind any other line the mark is gone from both readings, which go on from the
same state. -/
theorem outlineFrom_written (width : Nat) {ls : List Text} (h : ∀ l ∈ ls, '\n' ∉ trim l) (st : State) :
    outlineFrom { st with blankSeen := false } (written width (outlineFrom st ls)) =
      outlineFrom st ls := by
  induction ls generalizing st with
  | nil => rfl
  | cons l ls ih =>
    have hl := h l List.mem_cons_self
    have hls : ∀ m ∈ ls, '\n' ∉ trim m := fun m hm => h m (List.mem_cons_of_mem _ hm)
    rw [outlineFrom]
    cases he : entryOf? st l with
    | none =>
      rw [next_of_blank (trim_eq_nil_of_entryOf? he)]
      exact ih hls { st with blankSeen := true }
    | some e =>
      obtain ⟨hne, -⟩ := text_of_entryOf? he
      rw [Option.toList_some, List.singleton_append, written_cons, outlineFrom_lines_append hl he]
      have hnext : { next st l with blankSeen := false } = next st l := by
        rw [next_of_written hne]
      have hrest := ih hls (next st l)
      rw [hnext] at hrest
      rw [hrest]

/-- **A formatted text has the outline of the text.** -/
theorem outline_format (width : Nat) (s : Text) : outline (format width s) = outline s := by
  rw [outline, lines_format]
  exact outlineFrom_written width (newline_notMem_trim_lines s) State.start

end Indentation

/-- **Formatting forgets the width of an earlier formatting**: a text that was formatted is formatted as
the text itself. With one width, formatting twice is formatting once. -/
theorem format_format (width₁ width₂ : Nat) (s : Text) :
    format width₂ (format width₁ s) = format width₂ s := by
  have hwritten : ∀ t : Text, format width₂ t =
      (Indentation.written width₂ (Indentation.outline t)).flatten := fun t =>
    Indentation.run_eq width₂ _ _
  rw [hwritten, hwritten, Indentation.outline_format]

end ShaderWeave
