import ShaderWeave.Proofs.Include.Stretches
import ShaderWeave.Proofs.Marker.Expansion

set_option autoImplicit false

/-!
# Texts cut into sections

A text with entry markers is made of sections: whole lines, in which the markers are written out, and
texts in between in which no line starts like a marker. So the markers of the text are written out
section by section. A comment is such a text: its first line and its last one are no markers, and the
lines in between may be. It stays a comment.

## Main definitions

* `ShaderWeave.IsUnmarked` — a text in which no line starts like an entry marker.
* `ShaderWeave.IsSection` — whole lines with what they become, or a text without markers.
* `ShaderWeave.Scan.ClosedComment.expanded` — a comment with the markers in it written out.
* `ShaderWeave.MarkerLine` — an entry marker that is a whole line.

## Main results

* `ShaderWeave.expandEntries_sections` — the markers of a text are written out section by section.
* `ShaderWeave.Scan.ClosedComment.isSection_of_mem` — the sections of a comment.
* `ShaderWeave.MarkerLine.expandEntries_text` — the line of a marker becomes the head of a scope.
-/

namespace ShaderWeave

open Text Scan Include

/-! ### Texts without markers -/

/-- **A text that starts like an entry marker**: its first line is one, from the `@` on. -/
def OpensMarker (s : Text) : Prop :=
  s.head? = some '@' ∧ (EntryMarker.parse? (firstLine s)).isSome = true

/-- **A text in which no line starts like an entry marker**, whatever follows. -/
def IsUnmarked (u : Text) : Prop :=
  NoLineStarts false OpensMarker u

/-- No line starts like a marker where texts without markers meet. -/
theorem IsUnmarked.append {u v : Text} (hu : IsUnmarked u) (hv : IsUnmarked v) :
    IsUnmarked (u ++ v) :=
  NoLineStarts.append hu hv (by simp)

/-- The empty text has no markers. -/
theorem isUnmarked_nil : IsUnmarked [] := by
  intro x p y z h _ _ _ hy
  exact absurd (List.append_eq_nil_iff.1 (List.append_eq_nil_iff.1 h.symm).2).2 hy

/-- **A text without markers is kept** where markers are written out. -/
theorem IsUnmarked.expandEntries_eq {u : Text} (h : IsUnmarked u) : expandEntries u = u := by
  refine expandEntries_of_unmarked fun l hl => ?_
  rw [Option.eq_none_iff_forall_ne_some]
  intro m hm
  obtain ⟨e, rfl, -⟩ := EntryMarker.exists_of_parse? hm
  obtain ⟨ls, ms, hlines⟩ := List.append_of_mem hl
  have hls : IsLines (ls ++ e.text :: ms) := hlines ▸ isLines_lines u
  obtain ⟨hindent, -⟩ := e.newline_notMem_of_mem_lines hl
  -- the marker stands behind spaces at the start of its line
  have hu : u = ls.flatten ++ (e.indent ++ (e.content ++ (e.rest ++ ms.flatten))) := by
    rw [← flatten_lines u, hlines, List.flatten_append, List.flatten_cons, EntryLine.text]
    simp only [List.append_assoc]
  refine h ls.flatten e.indent (e.content ++ (e.rest ++ ms.flatten)) [] hu (hls.startsLine (by simp))
    (by simp) e.indent_spaces (by simp [EntryLine.content]) ⟨by simp [EntryLine.content], ?_⟩
  obtain ⟨w, v, hw, hv, hwv, htrim⟩ := hls.of_append.2.exists_cons
  have hfirst : e.indent ++ firstLine (e.content ++ (e.rest ++ ms.flatten)) = w := by
    rw [← firstLine_append hw hv, ← hwv, EntryLine.text, List.append_assoc, List.append_assoc,
      firstLine_append_of_notMem hindent]
  have hparse : EntryMarker.parse? (firstLine (e.content ++ (e.rest ++ ms.flatten))) = some m := by
    rw [← hm]
    refine EntryMarker.parse?_congr ?_
    rw [htrim, ← hfirst, trim_spaces_append e.indent_spaces]
  rw [List.append_nil, hparse]
  rfl

/-- A line with a `/` is no marker, whatever follows. -/
theorem isUnmarked_of_slash {w : Text} {c : Char} (hline : '\n' ∉ w) (hslash : '/' ∈ w ++ [c]) :
    IsUnmarked (w ++ [c]) := by
  rintro x p y z h hx - hp hy ⟨-, hopens⟩
  obtain ⟨y, d, rfl⟩ := (List.eq_nil_or_concat y).resolve_left hy
  rw [List.concat_eq_append] at *
  rw [← List.append_assoc p, ← List.append_assoc] at h
  obtain ⟨rfl, hcd⟩ := List.append_inj' h rfl
  obtain rfl := List.singleton_inj.1 hcd
  rw [List.mem_append, List.mem_append, not_or, not_or] at hline
  -- nothing stands in front of the line
  obtain rfl : x = [] := by
    rcases List.eq_nil_or_concat x with rfl | ⟨x, d, rfl⟩
    · rfl
    · obtain rfl : d = '\n' := hx d (by simp)
      exact absurd (by simp) hline.1
  have hmem : '/' ∈ firstLine (y ++ [c] ++ z) := by
    have hyc : '/' ∈ y ++ [c] := by
      simpa [notMem_of_all_isSpace hp (show isSpace '/' = false by decide)] using hslash
    by_cases hc : c = '\n'
    · subst hc
      rw [List.append_assoc, List.singleton_append, firstLine_append hline.2.2 (endsLine_newline z)]
      simpa using hyc
    · rw [firstLine_append_of_notMem (by simp [hline.2.2, Ne.symm hc])]
      exact List.mem_append_left _ hyc
  rw [EntryMarker.parse?_eq_none_of_slash hmem] at hopens
  cases hopens

/-! ### Sections -/

/-- **A section**: a text without markers, or whole lines with the text that they become. -/
def IsSection : Text × Option Text → Prop
  | (u, none) => IsUnmarked u
  | (u, some g) => StartsLine u ∧ expandEntries u = g

/-- What a section becomes. -/
def becomes (p : Text × Option Text) : Text :=
  p.2.getD p.1

/-- **The markers of a text are written out section by section**, behind a text without markers.

**Proof sketch.** Induction on the sections. One without markers is added to the text in front; behind
whole lines, a new line starts. -/
theorem expandEntries_sections {u : Text} {ls : List (Text × Option Text)} {b : Bool}
    (hu : IsUnmarked u) (hb : b = true → StartsLine u) (hsection : ∀ p ∈ ls, IsSection p)
    (hplaced : Placed b ls) :
    expandEntries (u ++ ls.flatMap Prod.fst) = u ++ ls.flatMap becomes := by
  induction ls generalizing u b with
  | nil => simpa using hu.expandEntries_eq
  | cons p ls ih =>
    obtain ⟨v, g⟩ := p
    have hrest := fun q hq => hsection q (List.mem_cons_of_mem _ hq)
    have hfirst := hsection _ List.mem_cons_self
    rw [List.flatMap_cons, List.flatMap_cons]
    rcases g with _ | g
    · have := ih (IsUnmarked.append hu hfirst) (startsLine_append_of_lineAfter hb) hrest hplaced.2
      simpa [becomes] using this
    · obtain ⟨hlines, rfl⟩ : StartsLine v ∧ expandEntries v = g := hfirst
      have := ih isUnmarked_nil (fun _ => startsLine_nil) hrest hplaced.2
      rw [List.nil_append, List.nil_append] at this
      rw [expandEntries_append (hb (hplaced.1 rfl)), hu.expandEntries_eq, expandEntries_append hlines,
        this]
      rfl

/-! ### Comments -/

/-- Whole lines become whole lines. -/
theorem startsLine_expandEntries {u : Text} (h : StartsLine u) : StartsLine (expandEntries u) := by
  rcases List.eq_nil_or_concat u with rfl | ⟨u, c, rfl⟩
  · exact startsLine_nil
  · obtain rfl : c = '\n' := h c (by simp)
    rw [List.concat_eq_append, expandEntries_append_newline]
    exact startsLine_concat _

/-- What stays on a line stands in one of two texts that meet where a line starts. -/
theorem infix_append_of_startsLine {w u v : Text} (hu : StartsLine u) (hw : '\n' ∉ w)
    (h : w <:+: u ++ v) : w <:+: u ∨ w <:+: v := by
  obtain ⟨a, b, hab⟩ := h
  rcases List.append_eq_append_iff.1 hab with ⟨c, rfl, -⟩ | ⟨c, huc, rfl⟩
  · exact .inl ⟨a, c, rfl⟩
  · rcases List.append_eq_append_iff.1 huc with ⟨d, rfl, rfl⟩ | ⟨d, rfl, rfl⟩
    · -- the part in front of the line would end in its newline
      rcases List.eq_nil_or_concat d with rfl | ⟨d, e, rfl⟩
      · exact .inr ⟨[], b, rfl⟩
      · obtain rfl : e = '\n' := hu e (by simp)
        exact absurd (by simp) hw
    · exact .inr ⟨d, b, rfl⟩

/-- The head of an entry point has no `/`. -/
theorem EntryLine.slash_notMem_expandLine {e : EntryLine} {s : Text} (hl : e.text ∈ lines s) :
    '/' ∉ EntryMarker.expandLine e.text := by
  have hindent : '/' ∉ e.indent := notMem_of_all_isSpace e.indent_spaces (by decide)
  have hlines := e.notMem_headLines (c := '/') (by decide)
  simp only [EntryMarker.headLines, List.forall_mem_cons] at hlines
  rw [(e.isWrittenOut_expandLine hl).eq_join, List.mem_append, not_or]
  constructor
  · simp [EntryMarker.headLines, join, List.intercalate, hindent, hlines]
  · split <;> decide

/-- Nothing with a `/` in it comes about in a line where markers are written out. -/
theorem infix_of_infix_expandEntries {w s : Text} (hw : '\n' ∉ w) (hslash : '/' ∈ w)
    (h : w <:+: expandEntries s) : w <:+: s := by
  have hline : ∀ l ∈ lines s, w <:+: EntryMarker.expandLine l → w <:+: l := by
    intro l hl hin
    cases hm : EntryMarker.parse? l with
    | none => rwa [EntryMarker.expandLine_of_parse? hm] at hin
    | some m =>
      obtain ⟨e, rfl, -⟩ := EntryMarker.exists_of_parse? hm
      exact absurd (hin.subset hslash) (EntryLine.slash_notMem_expandLine hl)
  have hrun : ∀ {ls : List Text}, IsLines ls → (∀ l ∈ ls, l ∈ lines s) →
      w <:+: ls.flatMap EntryMarker.expandLine → w <:+: ls.flatten := by
    intro ls hls
    induction hls with
    | nil => exact fun _ h => h
    | last hne h =>
      intro hmem hin
      rw [List.flatMap_singleton] at hin
      rw [List.flatten_singleton]
      exact hline _ (hmem _ List.mem_cons_self) hin
    | @cons u ls _ _ ih =>
      intro hmem hin
      rw [List.forall_mem_cons] at hmem
      rw [List.flatMap_cons] at hin
      rw [List.flatten_cons]
      rcases infix_append_of_startsLine (EntryMarker.startsLine_expandLine hmem.1 (by simp)) hw
        hin with hin | hin
      · exact (hline _ hmem.1 hin).trans (List.prefix_append _ _).isInfix
      · exact (ih hmem.2 hin).trans (List.suffix_append _ _).isInfix
  rw [← flatten_lines s]
  exact hrun (isLines_lines s) (fun _ hl => hl) h

/-- **A text with the markers between its first line and its last one written out.** -/
def expandInside (u : Text) : Text :=
  (throughNewline u).1 ++
    (expandEntries (wholeLines (throughNewline u).2) ++ lastLine (throughNewline u).2)

/-- A text of one line is kept. -/
theorem expandInside_of_notMem {u : Text} (h : '\n' ∉ u) : expandInside u = u := by
  rw [expandInside, throughNewline_of_unended h]
  exact List.append_nil u

/-- Nothing with a `/` in it comes about within a text of lines. -/
theorem infix_of_infix_expandInside {w u : Text} (hw : '\n' ∉ w) (hslash : '/' ∈ w)
    (h : w <:+: expandInside u) : w <:+: u := by
  by_cases hnewline : '\n' ∈ u
  · obtain ⟨k, r, rfl, hk⟩ := List.eq_append_cons_of_mem hnewline
    rw [expandInside, throughNewline_of_notMem hk] at h
    have hr := wholeLines_append_lastLine r
    rw [← hr]
    rcases infix_append_of_startsLine (startsLine_concat k) hw h with h | h
    · exact h.trans ⟨[], wholeLines r ++ lastLine r, by simp⟩
    · rcases infix_append_of_startsLine (startsLine_expandEntries (startsLine_wholeLines r)) hw h
        with h | h
      · exact (infix_of_infix_expandEntries hw hslash h).trans ⟨k ++ ['\n'], lastLine r, by simp⟩
      · exact h.trans ⟨k ++ '\n' :: wholeLines r, [], by simp⟩
  · rwa [expandInside_of_notMem hnewline] at h

end ShaderWeave

namespace ShaderWeave.Scan.ClosedComment

open Text Include

/-- **A comment with the markers in it written out.** -/
def expanded : ClosedComment → ClosedComment
  | .line u h => .line u h
  | .block u h => .block (expandInside u) (by
      rw [← Bool.not_eq_true, occurs_iff_infix] at h ⊢
      exact fun hin => h (infix_of_infix_expandInside (by decide) (by decide) hin))

/-- **The sections of a comment.** -/
def sections : ClosedComment → List (Text × Option Text)
  | .line u h => [((line u h).text, none)]
  | .block u h =>
    if '\n' ∈ u then
      let (first, r) := throughNewline u
      [('/' :: '*' :: first, none), (wholeLines r, some (expandEntries (wholeLines r))),
        (lastLine r ++ ['*', '/'], none)]
    else [((block u h).text, none)]

/-- A comment of one line is one section. -/
theorem sections_of_notMem {u : Text} (h : occurs ['*', '/'] u = false) (hline : '\n' ∉ u) :
    (block u h).sections = [((block u h).text, none)] :=
  if_neg hline

/-- A comment of more lines has its whole lines between the first one and the last one. -/
theorem sections_of_mem {k r : Text} (h : occurs ['*', '/'] (k ++ '\n' :: r) = false)
    (hk : '\n' ∉ k) :
    (block (k ++ '\n' :: r) h).sections = [('/' :: '*' :: (k ++ ['\n']), none),
      (wholeLines r, some (expandEntries (wholeLines r))), (lastLine r ++ ['*', '/'], none)] := by
  rw [sections, if_pos (by simp), throughNewline_of_notMem hk]

/-- The sections make up the comment. -/
theorem flatMap_sections (c : ClosedComment) : c.sections.flatMap Prod.fst = c.text := by
  cases c with
  | line u h => simp [sections]
  | block u h =>
    by_cases hnewline : '\n' ∈ u
    · obtain ⟨k, r, rfl, hk⟩ := List.eq_append_cons_of_mem hnewline
      rw [sections_of_mem h hk, text]
      conv_rhs => rw [← wholeLines_append_lastLine r]
      simp
    · rw [sections_of_notMem h hnewline, List.flatMap_singleton]

/-- What they become makes up the comment with the markers written out. -/
theorem flatMap_becomes_sections (c : ClosedComment) :
    c.sections.flatMap becomes = c.expanded.text := by
  cases c with
  | line u h => simp [sections, expanded, becomes]
  | block u h =>
    rw [expanded, text]
    by_cases hnewline : '\n' ∈ u
    · obtain ⟨k, r, rfl, hk⟩ := List.eq_append_cons_of_mem hnewline
      rw [sections_of_mem h hk, expandInside, throughNewline_of_notMem hk]
      simp [becomes]
    · rw [sections_of_notMem h hnewline, expandInside_of_notMem hnewline]
      simp [becomes, text]

/-- **The sections of a comment are some**: its first line and its last one have a `/`. -/
theorem isSection_of_mem (c : ClosedComment) : ∀ p ∈ c.sections, IsSection p := by
  cases c with
  | line u h =>
    exact List.forall_mem_singleton.2
      (isUnmarked_of_slash (w := '/' :: '/' :: u) (by simp [h]) (by simp))
  | block u h =>
    by_cases hnewline : '\n' ∈ u
    · obtain ⟨k, r, rfl, hk⟩ := List.eq_append_cons_of_mem hnewline
      rw [sections_of_mem h hk]
      simp only [List.forall_mem_cons]
      refine ⟨isUnmarked_of_slash (w := '/' :: '*' :: k) (by simp [hk]) (by simp),
        ⟨startsLine_wholeLines r, rfl⟩, ?_, by simp⟩
      rw [show lastLine r ++ ['*', '/'] = (lastLine r ++ ['*']) ++ ['/'] by simp]
      exact isUnmarked_of_slash (by simp [newline_notMem_lastLine]) (by simp)
    · rw [sections_of_notMem h hnewline]
      refine List.forall_mem_singleton.2 ?_
      rw [text, show '/' :: '*' :: (u ++ ['*', '/']) = ('/' :: '*' :: (u ++ ['*'])) ++ ['/'] by simp]
      exact isUnmarked_of_slash (by simp [hnewline]) (by simp)

/-- The whole lines of a comment stand where a line starts. -/
theorem placed_sections (c : ClosedComment) (b : Bool) : Placed b c.sections := by
  cases c with
  | line u h => simp [sections, Placed]
  | block u h =>
    by_cases hnewline : '\n' ∈ u
    · obtain ⟨k, r, rfl, hk⟩ := List.eq_append_cons_of_mem hnewline
      have hfirst : lineAfter b ('/' :: '*' :: (k ++ ['\n'])) = true :=
        lineAfter_concat b ('/' :: '*' :: k) '\n'
      simp [sections_of_mem h hk, Placed, hfirst]
    · simp [sections_of_notMem h hnewline, Placed]

end ShaderWeave.Scan.ClosedComment

namespace ShaderWeave

open Text Scan Include

/-! ### Markers that are whole lines -/

/-- **An entry marker that is a whole line**, with its newline. -/
structure MarkerLine extends EntryLine where
  isLine : ∃ w, toEntryLine.text = w ++ ['\n'] ∧ '\n' ∉ w

/-- A text without braces, comments and directives. -/
def PlainText.ofNotMem (u : Text) (h : ∀ c ∈ ['{', '}', '/', '#'], c ∉ u) : PlainText where
  text := u
  noOpen := h _ (by decide)
  noClose := h _ (by decide)
  uncommented := isUncommented_of_notMem (h _ (by decide))
  unconditional := isClearOf_of_notMem (h _ (by decide))

/-- The signature of an entry point ends in a brace. -/
theorem EntryMarker.signature_eq (m : EntryMarker) : m.signature.dropLast ++ ['{'] = m.signature := by
  refine List.dropLast_append_getLast? _ ?_
  simp [signature, List.getLast?_append, List.getLast?_cons]

/-- The lines of an entry point have no other brace. -/
theorem EntryLine.brace_notMem (e : EntryLine) {c : Char} (hc : isBrace c = true) :
    c ∉ e.attributes ∧ c ∉ e.signature.dropLast ∧ c ∉ e.declaration := by
  have hbraces := e.filter_isBrace_headLines
  rw [EntryMarker.headLines, List.flatten_cons, List.flatten_cons, List.flatten_singleton,
    ← e.signature_eq] at hbraces
  simp only [List.filter_append] at hbraces
  have hlength := congrArg List.length hbraces
  have hnil : ∀ {u : Text}, (u.filter isBrace).length = 0 → c ∉ u := fun hu hmem =>
    List.filter_eq_nil_iff.1 (List.eq_nil_of_length_eq_zero hu) c hmem hc
  simp only [List.length_append, show (['{'].filter isBrace).length = 1 from rfl,
    List.length_singleton] at hlength
  exact ⟨hnil (by omega), hnil (by omega), hnil (by omega)⟩

namespace MarkerLine

variable (l : MarkerLine)

/-- A marker line is one line. -/
theorem lines_text : lines l.text = [l.text] := by
  obtain ⟨w, hw, hnewline⟩ := l.isLine
  rw [hw, lines_append_newline hnewline]
  rfl

/-- The line up to its brace. -/
def before : PlainText :=
  .ofNotMem l.front (by
    intro c hc
    simp only [List.mem_cons, List.not_mem_nil, or_false] at hc
    rcases hc with rfl | rfl | rfl | rfl <;>
      exact l.notMem_front (by decide) (by decide) (by decide) (by decide))

/-- The line behind its brace. -/
def behind : PlainText :=
  .ofNotMem l.rest (by
    intro c hc
    simp only [List.mem_cons, List.not_mem_nil, or_false] at hc
    rcases hc with rfl | rfl | rfl | rfl <;> exact notMem_of_all_isSpace l.rest_spaces (by decide))

/-- The head of an entry point has no other brace, no comment and no directive. -/
theorem notMem_head : ∀ c ∈ ['{', '}', '/', '#'],
    c ∉ '\n' :: l.indent ∧ c ∉ l.attributes ∧ c ∉ l.signature.dropLast ∧ c ∉ l.declaration := by
  have hindent : ∀ {c : Char}, isSpace c = false → c ∉ '\n' :: l.indent := fun hspace =>
    notMem_of_all_isSpace (u := '\n' :: l.indent) (by simp [l.indent_spaces]; decide) hspace
  have hlines : ∀ {c : Char}, c ∈ ['\n', '/', '#'] →
      c ∉ l.attributes ∧ c ∉ l.signature.dropLast ∧ c ∉ l.declaration := by
    intro c hc
    have := l.notMem_headLines hc
    simp only [EntryMarker.headLines, List.forall_mem_cons] at this
    exact ⟨this.1, fun hmem => this.2.1 (List.dropLast_subset _ hmem), this.2.2.1⟩
  simp only [List.forall_mem_cons]
  refine ⟨⟨hindent (by decide), l.brace_notMem (by decide)⟩,
    ⟨hindent (by decide), l.brace_notMem (by decide)⟩,
    ⟨hindent (by decide), hlines (by decide)⟩, ⟨hindent (by decide), hlines (by decide)⟩, by simp⟩

/-- The head of the entry point up to its brace. -/
def headBefore : PlainText :=
  .ofNotMem (l.indent ++ (l.attributes ++ '\n' :: (l.indent ++ l.signature.dropLast))) (by
    intro c hc
    have := l.notMem_head c hc
    simp_all)

/-- The head of the entry point behind its brace. -/
def headBehind : PlainText :=
  .ofNotMem ('\n' :: (l.indent ++ (l.declaration ++ ['\n']))) (by
    intro c hc
    have := l.notMem_head c hc
    simp_all)

/-- A marker line is what stands before its brace, the brace, and what stands behind it. -/
theorem text_eq_before : l.text = l.before.text ++ '{' :: l.behind.text :=
  l.text_eq

/-- **The line of a marker becomes the head of a scope.** -/
theorem expandEntries_text : expandEntries l.text = l.headBefore.text ++ '{' :: l.headBehind.text := by
  have hmem : l.text ∈ lines l.text := by simp [l.lines_text]
  have hlast : l.text.getLast? = some '\n' := by
    obtain ⟨w, hw, -⟩ := l.isLine
    simp [hw]
  rw [expandEntries, l.lines_text, List.flatMap_singleton,
    (l.isWrittenOut_expandLine hmem).eq_join, hlast, if_pos rfl, EntryMarker.headLines,
    ← l.signature_eq]
  simp [join, List.intercalate, headBefore, headBehind, PlainText.ofNotMem]

end MarkerLine

end ShaderWeave
