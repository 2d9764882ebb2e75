import ShaderWeave.Proofs.Chunk.Draft
import ShaderWeave.Proofs.Conditional.Parts

set_option autoImplicit false

/-!
# Reading drafts

The text of a draft is read as the draft says: its stage blocks are found, the text without them is
shared, and the directives that are found are those of the draft, in the whole text as well as in the
shared text and in the bodies of blocks.

## Main definitions

* `ShaderWeave.ChunkPart.Splits` — a text with its stage blocks and the text without them.
* `ShaderWeave.BlockHead.written` — a stage block of a draft as it is written.

## Main results

* `ShaderWeave.Draft.splits_text` — the stage blocks of the text of a draft.
* `ShaderWeave.Draft.stripIncludes_text`, `ShaderWeave.Draft.includeNames_text` — its directives.
-/

namespace ShaderWeave

open Text Scan

/-! ### Marks that start nothing -/

/-- Behind the name of a stage that starts nothing there is neither a parenthesis nor a brace. -/
theorem exists_of_startsNoHead {v z w r : Text} {stage : Stage} (h : startsNoHead v = true)
    (hw : word? (v ++ z) = some (w, r)) (hstage : Stage.ofName? w = some stage) :
    ∃ c q, skipBlanks r = c :: q ∧ c ≠ '(' ∧ c ≠ '{' := by
  obtain ⟨htake, hdrop, -⟩ := eq_of_word? hw
  rw [List.dropWhile_append] at hdrop
  have hsplit := List.takeWhile_append_dropWhile (p := isWordChar) (l := v)
  rw [startsNoHead] at h
  split at h
  · -- the text would be the start of the name
    rename_i hnil
    exfalso
    rw [hnil, List.append_nil] at hsplit
    have hword : ∀ c ∈ v, isWordChar c = true := by
      rw [← List.all_eq_true, ← hsplit]
      exact List.all_takeWhile
    have hmem : stage ∈ Stage.all := by cases stage <;> simp [Stage.all]
    have hnone := List.all_eq_true.1 h stage hmem
    rw [List.takeWhile_append_of_pos hword] at htake
    rw [Stage.name_of_ofName? hstage, ← htake, after?_append] at hnone
    cases hnone
  · rename_i hne
    rw [if_neg (by simpa using hne)] at hdrop
    have htake : v.takeWhile isWordChar = w := by
      have hsame : v.takeWhile isWordChar ++ (v.dropWhile isWordChar ++ z) =
          w ++ (v.dropWhile isWordChar ++ z) := by
        conv_rhs => rw [hdrop, ← (eq_of_word? hw).2.2]
        rw [← List.append_assoc, hsplit]
      exact List.append_cancel_right hsame
    rw [htake, hstage] at h
    subst hdrop
    cases hskip : skipBlanks (v.dropWhile isWordChar) with
    | nil => simp [hskip] at h
    | cons c q =>
      refine ⟨c, q ++ z, ?_, by simpa [hskip] using h⟩
      rw [skipBlanks, List.dropWhile_append, if_neg]
      · exact congrArg (· ++ z) hskip
      · rw [← skipBlanks, hskip]
        simp

variable {u : Text}

/-- An `@` of a text without marks starts nothing. -/
theorem startsNoHead_of_isMarkless (h : isMarkless ('@' :: u) = true) : startsNoHead u = true := by
  rw [isMarkless.eq_2, Bool.and_eq_true, Bool.or_eq_true] at h
  exact h.1.resolve_left (by decide)

/-- If nothing starts in a text, nothing starts in an end of it. -/
theorem isMarkless_of_append {v : Text} (h : isMarkless (u ++ v) = true) : isMarkless v = true := by
  induction u with
  | nil => exact h
  | cons c u ih =>
    rw [List.cons_append, isMarkless, Bool.and_eq_true] at h
    exact ih h.2

/-- A text without `@` has no marks. -/
theorem isMarkless_of_notMem (h : '@' ∉ u) : isMarkless u = true := by
  induction u with
  | nil => rfl
  | cons c u ih =>
    rw [List.mem_cons, not_or] at h
    rw [isMarkless, ih h.2, decide_eq_true (Ne.symm h.1)]
    rfl

/-- The name of a stage is the word behind its mark. -/
theorem word?_mark (stage : Stage) {gap : Text} (hgap : gap.all isBlank = true) {c : Char}
    (hc : isWordChar c = false) (s : Text) :
    word? (stage.name.toList ++ (gap ++ c :: s)) = some (stage.name.toList, gap ++ c :: s) := by
  refine word?_append (ChunkPart.name_word stage).1 (ChunkPart.name_word stage).2 ?_
  cases gap with
  | nil => simpa using hc
  | cons d gap =>
    have hd : isBlank d = true := List.all_eq_true.1 hgap d List.mem_cons_self
    simp [isWordChar_eq_false_of_isBlank hd]

/-! ### Reading stage blocks part by part -/

namespace ChunkPart

/-- **A text with its stage blocks and the text without them**, whatever follows. -/
def Splits (u : Text) (bs : List StageBlock) (c : Text) : Prop :=
  ∀ n z, (pieces (reader n) (u ++ z)).filterMap Piece.value? =
      bs.map .block ++ (pieces (reader n) z).filterMap Piece.value? ∧
    (pieces (reader n) (u ++ z)).flatMap ChunkContent.sharedText =
      c ++ (pieces (reader n) z).flatMap ChunkContent.sharedText

/-- The empty text has no stage blocks. -/
theorem splits_nil : Splits [] [] [] :=
  fun _ _ => ⟨rfl, rfl⟩

/-- **Two texts in a row** have the stage blocks of each. -/
theorem Splits.append {u v c e : Text} {bs ds : List StageBlock} (hu : Splits u bs c)
    (hv : Splits v ds e) : Splits (u ++ v) (bs ++ ds) (c ++ e) := by
  intro n z
  rw [List.append_assoc, (hu n _).1, (hu n _).2, (hv n z).1, (hv n z).2]
  simp

/-- A comment has no stage blocks. -/
theorem splits_closedComment (c : ClosedComment) : Splits c.text [] c.text := by
  intro n z
  rw [pieces_of_comment? (comment?_closed c z)]
  exact ⟨rfl, rfl⟩

/-- No stage block starts at a text without marks. -/
theorem read_eq_none_of_isMarkless (h : isMarkless u = true) (hne : u ≠ []) (n : Nat)
    (z : Text) : read n (u ++ z) = none := by
  obtain ⟨c, v, rfl⟩ := List.exists_cons_of_ne_nil hne
  rw [List.cons_append, read]
  split
  · rfl
  · rename_i stage rule r hhead
    obtain ⟨t, ht, -⟩ := readHead_suffix hhead
    obtain ⟨rfl, rfl⟩ := List.cons.inj ht
    rw [readHead] at hhead
    split at hhead
    · cases hhead
    · rename_i w r' hw
      split at hhead
      · cases hhead
      · rename_i stage hstage
        obtain ⟨d, q, hq, hparen, hbrace⟩ :=
          exists_of_startsNoHead (startsNoHead_of_isMarkless h) hw hstage
        rw [hq] at hhead
        split at hhead
        · rename_i heq
          exact absurd (List.cons.inj heq).1 hparen
        · cases hhead
          rw [doubleBlock?.eq_2 _ fun s hs => hbrace (List.cons.inj hs).1]

/-- A character that starts neither a comment nor a stage block is shared. -/
theorem Splits.cons {c : Char} {u e : Text} {bs : List StageBlock}
    (hcomment : ∀ z, comment? (c :: (u ++ z)) = none) (hread : ∀ n z, read n (c :: (u ++ z)) = none)
    (h : Splits u bs e) : Splits (c :: u) bs (c :: e) := by
  intro n z
  obtain ⟨hvalues, hshared⟩ := h n z
  rw [List.cons_append, pieces_of_unread (R := reader n) (hcomment z) (hread n z)]
  exact ⟨hvalues, congrArg (c :: ·) hshared⟩

/-- A plain text without marks has no stage blocks. -/
theorem splits_of_isMarkless {u : Text} (hu : isUncommented u = true) (h : isMarkless u = true) :
    Splits u [] u := by
  induction u with
  | nil => exact splits_nil
  | cons c u ih =>
    have hrest : isMarkless u = true := by
      rw [isMarkless, Bool.and_eq_true] at h
      exact h.2
    exact .cons (comment?_append_of_isUncommented hu (by simp))
      (fun n => read_eq_none_of_isMarkless h (by simp) n) (ih (isUncommented_of_cons hu) hrest)

/-- No brace comes behind spaces that another character follows. -/
theorem skipBlanks_ne_brace {u : Text} (hu : u.all isSpace = true) {c : Char}
    (hspace : isSpace c = false) (hc : c ≠ '{') (z s : Text) : skipBlanks (u ++ c :: z) ≠ '{' :: s := by
  have hblank : isBlank c = false := by
    rw [← Bool.not_eq_true]
    intro hblank
    rw [isSpace_of_isBlank hblank] at hspace
    cases hspace
  rw [skipBlanks, List.dropWhile_append]
  split
  · rw [List.dropWhile_cons_of_neg (by simp [hblank])]
    exact fun h => hc (List.cons.inj h).1
  · rename_i hne
    obtain ⟨d, v, hdv⟩ := List.exists_cons_of_ne_nil (l := u.dropWhile isBlank) (by simpa using hne)
    have hd : d ∈ u := (List.dropWhile_suffix isBlank).subset (hdv ▸ List.mem_cons_self)
    rw [hdv]
    intro h
    obtain rfl := (List.cons.inj h).1
    exact notMem_of_all_isSpace hu (by decide) hd

/-- No stage block starts at an entry marker: an arrow comes in the place of the braces. -/
theorem read_marker (n : Nat) {e : EntryLine} (h : '\n' ∉ e.content) (z : Text) :
    read n (e.content ++ z) = none := by
  have hhead : readHead (e.content ++ z) = some (e.stage, trim e.argument, skipBlanks (e.beforeArrow ++
      '-' :: '>' :: (e.behindArrow ++ (e.output ++ (e.beforeBrace ++ '{' :: z))))) := by
    simp only [EntryLine.content, List.cons_append, List.append_assoc, List.nil_append, readHead]
    rw [word?_mark e.stage e.gap_blanks (by decide)]
    simp only [Stage.ofName?_name]
    rw [skipBlanks_append e.gap_blanks, skipBlanks_cons (by decide)]
    simp only [parenthesized?_append (e.all_argument h)]
  rw [read, hhead]
  simp only
  rw [doubleBlock?.eq_2 _ fun s => skipBlanks_ne_brace e.beforeArrow_spaces (by decide) (by decide) _ _]

/-- **A line with an entry marker has no stage blocks.** -/
theorem splits_markerLine (l : MarkerLine) : Splits l.toEntryLine.text [] l.toEntryLine.text := by
  have hmem : l.toEntryLine.text ∈ lines l.toEntryLine.text := by simp [l.lines_text]
  obtain ⟨-, hcontent⟩ := l.newline_notMem_of_mem_lines hmem
  have hbehind : ∀ {c : Char}, c ∈ ['@', '/'] → c ∉ l.inner ++ '{' :: l.rest := by
    intro c hc
    simp only [List.mem_cons, List.not_mem_nil, or_false] at hc
    rcases hc with rfl | rfl <;>
      simp [l.notMem_inner, notMem_of_all_isSpace l.rest_spaces, isSpace, isBlank, isWordChar]
  have hread : ∀ n z, read n ('@' :: (l.inner ++ '{' :: l.rest ++ z)) = none := by
    intro n z
    have := read_marker n hcontent (l.rest ++ z)
    simpa [EntryLine.content, EntryLine.inner] using this
  have hindent : Splits l.indent [] l.indent :=
    splits_of_isMarkless (isUncommented_of_notMem (notMem_of_all_isSpace l.indent_spaces (by decide)))
      (isMarkless_of_notMem (notMem_of_all_isSpace l.indent_spaces (by decide)))
  have hrest := splits_of_isMarkless (isUncommented_of_notMem (hbehind (c := '/') (by decide)))
    (isMarkless_of_notMem (hbehind (c := '@') (by decide)))
  have := hindent.append (.cons (fun z => comment?_cons_eq_none (by decide) _) hread hrest)
  simpa [EntryLine.text_eq, EntryLine.front] using this

/-- A stage block is one. -/
theorem splits_writtenBlock (b : WrittenBlock) : Splits b.text [b.read] [] := by
  intro n z
  have hcomment : comment? (b.text ++ z) = none := by
    rw [WrittenBlock.text, List.cons_append, comment?_cons_eq_none (by decide)]
  rw [pieces_of_read hcomment (read_writtenBlock n b z)]
  exact ⟨rfl, rfl⟩

end ChunkPart

/-- **A stage block of a draft as it is written.** -/
def BlockHead.written (h : BlockHead) (body : Draft) : WrittenBlock where
  stage := h.stage
  gap := h.gap
  argument := h.argument
  body := body.text
  gap_blank := h.gap_blank
  closed := (Markup.wellBraced_render _).complete.commentsClosed
  balanced := (Markup.wellBraced_render _).balanced

/-- No `@` stands between the mark of a stage block and its argument. -/
theorem BlockHead.at_notMem (h : BlockHead) : '@' ∉ h.stage.name.toList ++ h.gap := by
  rw [List.mem_append, not_or]
  refine ⟨?_, fun hmem => absurd (List.all_eq_true.1 h.gap_blank _ hmem) (by decide)⟩
  cases h.stage <;> decide

/-- No further parenthesis is opened in the argument of a stage block and behind it. -/
theorem BlockHead.paren_notMem_tail (h : BlockHead) :
    '(' ∉ (WrittenArgument.render? h.argument ++ ['{', '{']).tail := by
  cases h.argument with
  | none => decide
  | some arg =>
    have htext : '(' ∉ arg.text := fun hmem =>
      absurd (List.all_eq_true.1 arg.onLine _ hmem) (by decide)
    have hpad : '(' ∉ arg.pad := fun hmem =>
      absurd (List.all_eq_true.1 arg.pad_blank _ hmem) (by decide)
    simp [WrittenArgument.render?, htext, hpad]

namespace Draft

open Include ChunkPart

variable {flags : Flags}

/-! ### The stage blocks of a draft -/

/-- The text in front of a body has neither comments nor marks. -/
theorem isMarkless_ifHead (h : IfHead) :
    isUncommented (h.text ++ ['{']) = true ∧ isMarkless (h.text ++ ['{']) = true := by
  have hslash := h.notMem_text (c := '/') (by decide) (by decide) (by decide)
  have hat := h.notMem_text (c := '@') (by decide) (by decide) (by decide)
  exact ⟨isUncommented_of_notMem (by simp [hslash]), isMarkless_of_notMem (by simp [hat])⟩

/-- The text between two bodies has neither comments nor marks. -/
theorem isMarkless_elseHead (h : ElseHead) :
    isUncommented ('}' :: h.text ++ ['{']) = true ∧ isMarkless ('}' :: h.text ++ ['{']) = true := by
  have hslash := h.notMem_text (c := '/') (by decide) (by decide)
  have hat := h.notMem_text (c := '@') (by decide) (by decide)
  exact ⟨isUncommented_of_notMem (by simp [hslash]), isMarkless_of_notMem (by simp [hat])⟩

/-- A stage block in front of a draft. -/
theorem text_block (head : BlockHead) (body rest : Draft) :
    (block head body rest).text = (head.written body).text ++ rest.text := by
  simp [text, toMarkup, Markup.render, braced, BlockHead.plain, WrittenBlock.text, BlockHead.written,
    StageHead.text, Stage.mark]

/-- **The stage blocks of the text of a draft** are those of the draft, and without them it is the text
of the draft that they are cut out of.

**Proof sketch.** Induction on the draft. Braces, and the text in front of and between the bodies of a
conditional, are plain texts without marks. -/
theorem splits_text (d : Draft) :
    Splits d.text (d.blocks.map fun p => (p.1.written p.2).read) d.cut.text := by
  have hopen : Splits ['{'] [] ['{'] := splits_of_isMarkless (by decide) (by decide)
  have hclose : Splits ['}'] [] ['}'] := splits_of_isMarkless (by decide) (by decide)
  induction d with
  | done => exact splits_nil
  | plain t rest ih => exact (splits_of_isMarkless t.uncommented t.markless).append ih
  | comment c rest ih => exact (splits_closedComment c).append ih
  | directive l rest ih => exact (splits_of_isMarkless l.uncommented l.markless).append ih
  | entry l body rest ihb ih =>
    have := (splits_markerLine l).append (ihb.append (hclose.append ih))
    simpa [text, toMarkup, Markup.render, braced, cut, blocks, l.text_eq_before] using this
  | scope body rest ihb ih =>
    have := hopen.append (ihb.append (hclose.append ih))
    simpa [text, toMarkup, Markup.render, braced, cut, blocks] using this
  | when head body rest ihb ih =>
    have hhead := isMarkless_ifHead head
    have := (splits_of_isMarkless hhead.1 hhead.2).append (ihb.append (hclose.append ih))
    simpa [text, toMarkup, Markup.render, braced, cut, blocks] using this
  | either head body mid alt rest ihb iha ih =>
    have hhead := isMarkless_ifHead head
    have hmid := isMarkless_elseHead mid
    have := (splits_of_isMarkless hhead.1 hhead.2).append (ihb.append
      ((splits_of_isMarkless hmid.1 hmid.2).append (iha.append (hclose.append ih))))
    simpa [text, toMarkup, Markup.render, braced, cut, blocks] using this
  | block head body rest _ ih =>
    rw [text_block, cut, blocks]
    exact (splits_writtenBlock (head.written body)).append ih

/-- **The content of the text of a draft.** -/
theorem parse_text (d : Draft) :
    ChunkContent.parse d.text =
      ⟨trim d.cut.text, d.blocks.map fun p => (p.1.written p.2).read,
        ChunkContent.defectsOf [] (d.blocks.map fun p => .block (p.1.written p.2).read)⟩ := by
  obtain ⟨hvalues, hshared⟩ := d.splits_text (byteSize d.text) []
  have hnil : pieces (reader (byteSize d.text)) [] = [] := by rw [pieces]
  rw [List.append_nil, hnil, List.filterMap_nil, List.append_nil, List.map_map] at hvalues
  rw [List.append_nil, hnil, List.flatMap_nil, List.append_nil] at hshared
  rw [ChunkContent.parse]
  simp only [hvalues, hshared]
  congr 1
  simp [Function.comp_def, ChunkPart.block?]

/-! ### The directives of a draft -/

/-- A conditional is no directive. -/
theorem isClearOf_keyword_of_if {u : Text} (h : '#' ∉ u) :
    isClearOf keyword ('#' :: 'i' :: 'f' :: u) = true := by
  have hkeyword : keyword = '#' :: 'i' :: 'n' :: "clude".toList := rfl
  have hrest : ∀ {x q : Text}, 'i' :: 'f' :: u = x ++ '#' :: q → False := by
    intro x q hx
    have : '#' ∈ 'i' :: 'f' :: u := hx ▸ by simp
    simp [h] at this
  refine isClearOf_iff.2 ⟨?_, fun q hq hne _ hsuffix => ?_⟩
  · rintro ⟨x, y, hxy⟩
    rw [hkeyword] at hxy
    rcases x with _ | ⟨c, x⟩
    · simp at hxy
    · exact hrest (by simpa using (List.cons.inj hxy).2.symm)
  · obtain ⟨y, hy⟩ := hq
    obtain ⟨x, hx⟩ := hsuffix
    obtain ⟨c, q, rfl⟩ := List.exists_cons_of_ne_nil hne
    rw [hkeyword] at hy
    obtain ⟨rfl, hy⟩ := List.cons.inj hy
    rcases x with _ | ⟨d, x⟩
    · obtain ⟨-, rfl⟩ := List.cons.inj hx
      simp at hy
    · exact hrest (List.cons.inj hx).2.symm

/-- The text in front of a body starts no directive. -/
theorem isQuiet_ifHead (h : IfHead) : IsQuiet (h.text ++ ['{']) := by
  have hgap : '#' ∉ h.gap := fun hm => absurd (List.all_eq_true.1 h.gap_blank _ hm) (by decide)
  have hflag : '#' ∉ h.flag := fun hm => absurd (List.all_eq_true.1 h.flag_word _ hm) (by decide)
  have hpad : '#' ∉ h.pad := fun hm => absurd (List.all_eq_true.1 h.pad_blank _ hm) (by decide)
  refine isQuiet_of_isClearOf (isMarkless_ifHead h).1 ?_
  have := isClearOf_keyword_of_if (u := h.gap ++ h.flag ++ h.pad ++ ['{'])
    (by simp [hgap, hflag, hpad])
  simpa [IfHead.text] using this

/-- The text between two bodies starts no directive. -/
theorem isQuiet_elseHead (h : ElseHead) : IsQuiet ('}' :: h.text ++ ['{']) := by
  have hsharp := h.notMem_text (c := '#') (by decide) (by decide)
  exact isQuiet_of_isClearOf (isMarkless_elseHead h).1 (isClearOf_of_notMem (by simp [hsharp]))

/-- The line of an entry marker starts no directive. -/
theorem isQuiet_markerLine (l : MarkerLine) : IsQuiet l.toEntryLine.text := by
  have hnot : ∀ {c : Char}, c ∈ ['/', '#'] → c ∉ l.toEntryLine.text := by
    intro c hc
    simp only [List.mem_cons, List.not_mem_nil, or_false] at hc
    rcases hc with rfl | rfl <;>
      exact l.notMem_text (by decide) (by decide) (by decide) (by decide) (by decide)
  exact isQuiet_of_isClearOf (isUncommented_of_notMem (hnot (by decide)))
    (isClearOf_of_notMem (hnot (by decide)))

/-- The stretches of a draft are directives and texts that start none. -/
theorem isStretch_of_mem {d : Draft} : ∀ p ∈ d.stretches, IsStretch p := by
  have hopen : IsQuiet ['{'] := isQuiet_of_isClearOf (by decide) (by decide)
  have hclose : IsQuiet ['}'] := isQuiet_of_isClearOf (by decide) (by decide)
  rw [stretches]
  induction d with
  | done => simp [slices]
  | plain t rest ih =>
    exact List.forall_mem_cons.2 ⟨isQuiet_of_isClearOf t.uncommented t.unincluded, ih⟩
  | comment c rest ih => exact List.forall_mem_cons.2 ⟨isQuiet_closedComment c, ih⟩
  | directive l rest ih => exact List.forall_mem_cons.2 ⟨l.isDirective, ih⟩
  | entry l body rest ihb ih =>
    simp only [slices, List.forall_mem_cons, List.forall_mem_append]
    exact ⟨isQuiet_markerLine l, ihb, hclose, ih⟩
  | scope body rest ihb ih =>
    simp only [slices, List.forall_mem_cons, List.forall_mem_append]
    exact ⟨hopen, ihb, hclose, ih⟩
  | when head body rest ihb ih =>
    simp only [slices, List.forall_mem_cons, List.forall_mem_append]
    exact ⟨isQuiet_ifHead head, ihb, hclose, ih⟩
  | either head body mid alt rest ihb iha ih =>
    simp only [slices, List.forall_mem_cons, List.forall_mem_append]
    exact ⟨isQuiet_ifHead head, ihb, isQuiet_elseHead mid, iha, hclose, ih⟩
  | block head body rest ihb ih =>
    have hhead := isQuiet_of_isClearOf head.uncommented head.unincluded
    simp only [slices, List.forall_mem_cons, List.forall_mem_append]
    exact ⟨hhead.append (hopen.append hopen), ihb, hclose.append hclose, ih⟩

/-- **Taking the directives out of the text of a draft** leaves the text of the draft without them. -/
theorem stripIncludes_text {d : Draft} (h : d.Aligned true) : stripIncludes d.text = d.strip.text := by
  have := (directives_stretches isQuiet_nil (fun _ => startsLine_nil) isStretch_of_mem h.placed).1
  rw [flatMap_filter_stretches] at this
  rwa [List.nil_append, List.nil_append, stretches, flatMap_slices] at this

/-- **The names that the text of a draft includes** are those of its directives. -/
theorem includeNames_text {d : Draft} (h : d.Aligned true) :
    includeNames d.text = distinct (d.names.map String.ofList) := by
  have := (directives_stretches isQuiet_nil (fun _ => startsLine_nil) isStretch_of_mem h.placed).2
  rw [List.nil_append, stretches, flatMap_slices] at this
  rw [includeNames, names, stretches, ← this, List.map_filterMap]

end Draft

end ShaderWeave
