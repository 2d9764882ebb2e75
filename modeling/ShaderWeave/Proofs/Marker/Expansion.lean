import ShaderWeave.Marker
import ShaderWeave.Proofs.Composition.LastNewline
import ShaderWeave.Proofs.Scan.LiveText

set_option autoImplicit false

/-!
# Entry markers written out

A line is an entry marker if, apart from the spaces around it, it has the form

    @stage ( input ) -> output {

with blanks allowed in front of the parenthesis and spaces in the other gaps. This module says so
without the reader, and what becomes of a text whose entry markers are written out: nothing happens to
its other lines, and each marker gives way to the three lines of an entry point, which are indented as
it was and open the one brace that it opened. None of these is an entry marker again.

## Main definitions

* `ShaderWeave.EntryLine` — an entry marker as it stands in a line.
* `ShaderWeave.EntryMarker.headLines` — the lines of the entry point that a marker stands for.
* `ShaderWeave.EntryLine.IsWrittenOut` — what such a line becomes.

## Main results

* `ShaderWeave.EntryMarker.parse?_eq_some_iff` — the lines that a marker is read from.
* `ShaderWeave.EntryLine.parse?_headLine` — the lines of an entry point are no markers.
* `ShaderWeave.expandEntries_by_line` — the lines of a text with its entry markers written out.
-/

namespace ShaderWeave

open Text Scan

/-! ### Markers in lines -/

/-- **An entry marker as it stands in a line**, with the gaps between its parts. -/
structure EntryLine extends EntryMarker where
  /-- The spaces before the marker. -/
  indent : Text
  /-- The blanks in front of the parenthesis. -/
  gap : Text
  beforeInput : Text
  behindInput : Text
  beforeArrow : Text
  behindArrow : Text
  beforeBrace : Text
  /-- The spaces behind the marker, such as the newline of the line. -/
  rest : Text
  indent_spaces : indent.all isSpace = true := by decide
  gap_blanks : gap.all isBlank = true := by decide
  beforeInput_spaces : beforeInput.all isSpace = true := by decide
  behindInput_spaces : behindInput.all isSpace = true := by decide
  beforeArrow_spaces : beforeArrow.all isSpace = true := by decide
  behindArrow_spaces : behindArrow.all isSpace = true := by decide
  beforeBrace_spaces : beforeBrace.all isSpace = true := by decide
  rest_spaces : rest.all isSpace = true := by decide
  input_ne_nil : input ≠ [] := by decide
  input_word : input.all isWordChar = true := by decide
  output_ne_nil : output ≠ [] := by decide
  output_word : output.all isWordChar = true := by decide

namespace EntryLine

/-- What stands between the parentheses. -/
def argument (e : EntryLine) : Text :=
  e.beforeInput ++ (e.input ++ e.behindInput)

/-- The marker from its `@` to its brace. -/
def content (e : EntryLine) : Text :=
  '@' :: (e.stage.name.toList ++ (e.gap ++ '(' :: (e.argument ++ ')' :: (e.beforeArrow ++
    ('-' :: '>' :: (e.behindArrow ++ (e.output ++ (e.beforeBrace ++ ['{']))))))))

/-- **The line.** -/
def text (e : EntryLine) : Text :=
  e.indent ++ (e.content ++ e.rest)

/-- What stands between the `@` of a marker and its brace. -/
def inner (e : EntryLine) : Text :=
  e.stage.name.toList ++ (e.gap ++ '(' :: (e.argument ++ ')' :: (e.beforeArrow ++
    ('-' :: '>' :: (e.behindArrow ++ (e.output ++ e.beforeBrace))))))

/-- The line up to its brace. -/
def front (e : EntryLine) : Text :=
  e.indent ++ '@' :: e.inner

/-- The line is cut at its brace. -/
theorem text_eq (e : EntryLine) : e.text = e.front ++ '{' :: e.rest := by
  simp [text, content, front, inner]

/-- Between its `@` and its brace a marker has no characters but spaces, those of words, and those of the
form. -/
theorem notMem_inner (e : EntryLine) {c : Char} (hspace : isSpace c = false)
    (hword : isWordChar c = false) (hform : c ∉ ['(', ')', '-', '>']) : c ∉ e.inner := by
  have hspaces : ∀ {u : Text}, u.all isSpace = true → c ∉ u := fun hu =>
    notMem_of_all_isSpace hu hspace
  have hwords : ∀ {u : Text}, u.all isWordChar = true → c ∉ u := fun hu hmem => by
    rw [List.all_eq_true.1 hu c hmem] at hword
    cases hword
  have hname : e.stage.name.toList.all isWordChar = true := by cases e.stage <;> decide
  have hgap : e.gap.all isSpace = true := List.all_eq_true.2 fun c hc =>
    isSpace_of_isBlank (List.all_eq_true.1 e.gap_blanks c hc)
  simp only [List.mem_cons, List.not_mem_nil, or_false, not_or] at hform
  simp [inner, argument, hform, hwords hname, hspaces hgap, hspaces e.beforeInput_spaces,
    hwords e.input_word, hspaces e.behindInput_spaces, hspaces e.beforeArrow_spaces,
    hspaces e.behindArrow_spaces, hwords e.output_word, hspaces e.beforeBrace_spaces]

/-- In front of its brace a line has one character more, the `@`. -/
theorem notMem_front (e : EntryLine) {c : Char} (hspace : isSpace c = false)
    (hword : isWordChar c = false) (hform : c ∉ ['(', ')', '-', '>']) (hat : c ≠ '@') :
    c ∉ e.front := by
  simp [front, notMem_of_all_isSpace e.indent_spaces hspace, hat, e.notMem_inner hspace hword hform]

/-- A line has one character more, its brace. -/
theorem notMem_text (e : EntryLine) {c : Char} (hspace : isSpace c = false)
    (hword : isWordChar c = false) (hform : c ∉ ['(', ')', '-', '>']) (hat : c ≠ '@')
    (hbrace : c ≠ '{') : c ∉ e.text := by
  simp [e.text_eq, e.notMem_front hspace hword hform hat, hbrace,
    notMem_of_all_isSpace e.rest_spaces hspace]

/-- The content of a marker line starts with `@` and ends in its brace, so it is trimmed. -/
theorem isTrimmed_content (e : EntryLine) : isTrimmed e.content = true := by
  have := isTrimmed_between (c := '@') (d := '{') (by decide) (by decide)
    (e.stage.name.toList ++ (e.gap ++ '(' :: (e.argument ++ ')' :: (e.beforeArrow ++
      ('-' :: '>' :: (e.behindArrow ++ (e.output ++ e.beforeBrace)))))))
  simpa [content] using this

/-- A marker line without the spaces at its ends is its content. -/
theorem trim_text (e : EntryLine) : trim e.text = e.content :=
  trim_eq_of_isTrimmed e.isTrimmed_content e.indent_spaces e.rest_spaces

/-- The indentation of the line is what it starts with. -/
theorem takeWhile_isSpace_text (e : EntryLine) : e.text.takeWhile isSpace = e.indent := by
  have hat : isSpace '@' = false := by decide
  rw [text, List.takeWhile_append_of_pos (List.all_eq_true.1 e.indent_spaces), content,
    List.cons_append, List.takeWhile_cons_of_neg (by simp [hat]), List.append_nil]

/-- Spaces around the name in the parentheses do not count. -/
theorem trim_argument (e : EntryLine) : trim e.argument = e.input := by
  have hspace : ∀ c ∈ e.input, isSpace c = false := fun c hc =>
    isSpace_eq_false_of_isWordChar (List.all_eq_true.1 e.input_word c hc)
  refine trim_eq_of_isTrimmed (isTrimmed_iff.2 ⟨fun c hc => ?_, fun c hc => ?_⟩)
    e.beforeInput_spaces e.behindInput_spaces
  · exact hspace c (List.mem_of_mem_head? hc)
  · exact hspace c (List.mem_of_getLast? hc)

/-- What stands between the parentheses is an argument, if it is on one line. -/
theorem all_argument (e : EntryLine) (h : '\n' ∉ e.content) :
    e.argument.all (!endsArgument ·) = true := by
  refine List.all_eq_true.2 fun c hc => ?_
  have hparens : c ≠ ')' ∧ c ≠ '(' := by
    constructor <;> rintro rfl
    all_goals
      simp only [argument, List.mem_append] at hc
      rcases hc with hc | hc | hc
      · exact notMem_of_all_isSpace e.beforeInput_spaces (by decide) hc
      · exact absurd (List.all_eq_true.1 e.input_word _ hc) (by decide)
      · exact notMem_of_all_isSpace e.behindInput_spaces (by decide) hc
  have hnewline : c ≠ '\n' := by
    rintro rfl
    exact h (by simp [content, hc])
  simp [endsArgument, hparens, hnewline]

/-- A space is no part of a word, and neither is what follows spaces here. -/
theorem head?_isWordChar {u s : Text} (hu : u.all isSpace = true)
    (hs : s.head?.any isWordChar = false) : (u ++ s).head?.any isWordChar = false := by
  cases u with
  | nil => exact hs
  | cons c u =>
    rw [List.all_cons, Bool.and_eq_true] at hu
    simpa using isWordChar_eq_false_of_isSpace hu.1

/-- **The marker of a line is read.** -/
theorem parse?_text (e : EntryLine) (h : '\n' ∉ e.content) :
    EntryMarker.parse? e.text = some e.toEntryMarker := by
  have hgap : e.gap.all isSpace = true := List.all_eq_true.2 fun c hc =>
    isSpace_of_isBlank (List.all_eq_true.1 e.gap_blanks c hc)
  have hname : e.stage.name.toList ≠ [] ∧ e.stage.name.toList.all isWordChar = true := by
    cases e.stage <;> decide
  have hstart : ∀ {u s : Text}, u.all isSpace = true → (∀ c ∈ s.head?, isSpace c = false) →
      trimStart (u ++ s) = s := fun hu hs => by rw [trimStart_append hu, trimStart_eq_self hs]
  have houtput : ∀ s : Text, ∀ c ∈ (e.output ++ s).head?, isSpace c = false := by
    intro s c hc
    rw [List.head?_append_of_ne_nil _ e.output_ne_nil] at hc
    exact isSpace_eq_false_of_isWordChar (List.all_eq_true.1 e.output_word c (List.mem_of_mem_head? hc))
  have hbrace : trim (e.beforeBrace ++ ['{']) = ['{'] := by
    have := trim_eq_of_isTrimmed (t := ['{']) (v := []) (by decide) e.beforeBrace_spaces rfl
    rwa [List.append_nil] at this
  rw [EntryMarker.parse?, trim_text, content]
  simp only [after?, if_true, Option.bind_some, bind]
  rw [word?_append hname.1 hname.2 (head?_isWordChar hgap (by simp; decide))]
  simp only [Option.bind_some, Stage.ofName?_name]
  rw [skipBlanks_append e.gap_blanks, skipBlanks_cons (by decide),
    parenthesized?_append (e.all_argument h)]
  simp only [Option.bind_some]
  rw [hstart e.beforeArrow_spaces (by simp; decide)]
  simp only [after?, if_true, Option.bind_some]
  rw [hstart e.behindArrow_spaces (houtput _),
    word?_append e.output_ne_nil e.output_word (head?_isWordChar e.beforeBrace_spaces (by decide))]
  simp [hbrace, trim_argument, e.input_ne_nil, guard, e.input_word]

end EntryLine

namespace EntryMarker

/-- A marker that is read stands in its line. -/
theorem exists_of_parse? {l : Text} {m : EntryMarker} (h : parse? l = some m) :
    ∃ e : EntryLine, e.text = l ∧ e.toEntryMarker = m := by
  rw [parse?] at h
  obtain ⟨r, hat, h⟩ := Option.bind_eq_some_iff.1 h
  obtain ⟨⟨w, r₁⟩, hword, h⟩ := Option.bind_eq_some_iff.1 h
  obtain ⟨stage, hstage, h⟩ := Option.bind_eq_some_iff.1 h
  obtain ⟨⟨input, r₂⟩, hparen, h⟩ := Option.bind_eq_some_iff.1 h
  obtain ⟨r₃, harrow, h⟩ := Option.bind_eq_some_iff.1 h
  obtain ⟨⟨output, r₄⟩, houtput, h⟩ := Option.bind_eq_some_iff.1 h
  obtain ⟨hbrace, ⟨hinput, hinputWord⟩, rfl⟩ : trim r₄ = ['{'] ∧
      (input ≠ [] ∧ input.all isWordChar = true) ∧ ⟨stage, input, output⟩ = m := by
    simpa [guard, Option.bind_eq_some_iff] using h
  -- what each part of the line is, from left to right
  obtain ⟨u, -, hu, hr₁⟩ := exists_of_parenthesized? hparen
  have hgap : r₁ = r₁.takeWhile isBlank ++ '(' :: (u ++ ')' :: r₂) := by
    rw [← hr₁]
    exact List.takeWhile_append_dropWhile.symm
  have htoArrow : r₂ = r₂.takeWhile isSpace ++ (['-', '>'] ++ r₃) := by
    rw [← after?_eq_some_iff.1 harrow]
    exact List.takeWhile_append_dropWhile.symm
  have hfromArrow : r₃ = r₃.takeWhile isSpace ++ (output ++ r₄) := by
    rw [← (eq_of_word? houtput).2.2]
    exact List.takeWhile_append_dropWhile.symm
  obtain ⟨before, behind, hbefore, hbehind, hargument⟩ := exists_trim u
  obtain ⟨toBrace, more, htoBrace, hmore, hr₄⟩ := exists_trim r₄
  obtain ⟨indent, rest, hindent, hrest, hl⟩ := exists_trim l
  have hword' : w = stage.name.toList := (Stage.name_of_ofName? hstage).symm
  refine ⟨{
    stage := stage, input := input, output := output
    indent := indent, gap := r₁.takeWhile isBlank, beforeInput := before, behindInput := behind
    beforeArrow := r₂.takeWhile isSpace, behindArrow := r₃.takeWhile isSpace
    beforeBrace := toBrace, rest := more ++ rest
    indent_spaces := hindent, gap_blanks := List.all_takeWhile
    beforeInput_spaces := hbefore, behindInput_spaces := hbehind
    beforeArrow_spaces := List.all_takeWhile, behindArrow_spaces := List.all_takeWhile
    beforeBrace_spaces := htoBrace
    rest_spaces := by rw [List.all_append, hmore, hrest]; rfl
    input_ne_nil := hinput, input_word := hinputWord
    output_ne_nil := (isWord_of_word? houtput).1
    output_word := (isWord_of_word? houtput).2 }, ?_, rfl⟩
  conv_rhs => rw [hl, after?_eq_some_iff.1 hat, (eq_of_word? hword).2.2, hword', hgap, hargument, hu,
    htoArrow, hfromArrow, hr₄, hbrace]
  simp [EntryLine.text, EntryLine.content, EntryLine.argument]

/-- **The lines that a marker is read from** are those that it stands in. No line of a text has a newline
but at its end. -/
theorem parse?_eq_some_iff {l : Text} (hl : '\n' ∉ trim l) {m : EntryMarker} :
    parse? l = some m ↔ ∃ e : EntryLine, e.text = l ∧ e.toEntryMarker = m := by
  refine ⟨exists_of_parse?, ?_⟩
  rintro ⟨e, rfl, rfl⟩
  rw [e.trim_text] at hl
  exact e.parse?_text hl

/-- Lines are read apart from the spaces around them. -/
theorem parse?_congr {l w : Text} (h : trim l = trim w) : parse? l = parse? w := by
  rw [parse?, parse?, h]

/-- A line with a `/` is no marker. -/
theorem parse?_eq_none_of_slash {l : Text} (h : '/' ∈ l) : parse? l = none := by
  rw [Option.eq_none_iff_forall_ne_some]
  intro m hm
  obtain ⟨e, rfl, -⟩ := exists_of_parse? hm
  exact e.notMem_text (by decide) (by decide) (by decide) (by decide) (by decide) h

/-! ### The lines of an entry point -/

/-- What stands in front of the function of an entry point. -/
def attributes (m : EntryMarker) : Text :=
  '@' :: (m.stage.name.toList ++ match m.stage with
    | .compute => " @workgroup_size(64)".toList
    | _ => [])

/-- The signature of an entry point. That of the compute stage returns nothing. -/
def signature (m : EntryMarker) : Text :=
  let result : Text := match m.stage with
    | .compute => []
    | _ => " -> ".toList ++ m.stage.outputType.toList
  "fn ".toList ++ (m.stage.entryPoint.toList ++ ('(' :: (m.input ++ (':' :: ' ' ::
    (m.stage.inputType.toList ++ (')' :: (result ++ [' ', '{'])))))))

/-- The declaration of the value that an entry point builds. -/
def declaration (m : EntryMarker) : Text :=
  "    var ".toList ++ (m.output ++ (':' :: ' ' :: (m.stage.outputType.toList ++ [';'])))

/-- **The lines of the entry point** that a marker stands for, without their newlines. -/
def headLines (m : EntryMarker) : List Text :=
  [m.attributes, m.signature, m.declaration]

/-- The head of an entry point is made of its lines, each with the indentation. -/
theorem head_eq (m : EntryMarker) (indent : Text) :
    m.head indent = join ['\n'] (m.headLines.map (indent ++ ·)) := by
  have hjoin : ∀ a b c : Text, join ['\n'] [a, b, c] = a ++ '\n' :: (b ++ '\n' :: c) := by
    intro a b c
    simp [join, List.intercalate]
  have hsize : s!" @workgroup_size({workgroupSize})" = " @workgroup_size(64)" := by cbv
  rw [headLines, List.map_cons, List.map_cons, List.map_singleton, hjoin]
  obtain ⟨stage, input, output⟩ := m
  unfold head attributes signature declaration
  cases stage with
  | compute =>
    rw [hsize]
    simp only [List.append_assoc, List.cons_append, List.nil_append]
  | _ => simp only [List.append_assoc, List.cons_append, List.nil_append]

/-- Only what starts with `@` behind its indentation can be a marker. -/
theorem parse?_eq_none {u s : Text} {c : Char} (hu : u.all isSpace = true) (hspace : isSpace c = false)
    (hat : c ≠ '@') : parse? (u ++ c :: s) = none := by
  have htrim : ∃ t, trim (u ++ c :: s) = c :: t := by
    rw [trim, trimStart_append hu, trimStart_eq_self (by simpa using hspace)]
    exact ⟨_, trimEnd_cons_of_not_all (by simp [hspace])⟩
  obtain ⟨t, ht⟩ := htrim
  rw [parse?, ht, after?, if_neg (Ne.symm hat)]
  rfl

end EntryMarker

namespace EntryLine

variable (e : EntryLine)

/-- The names in a marker have none of the characters that are no parts of words. -/
theorem notMem_names {c : Char} (hc : isWordChar c = false) : c ∉ e.input ∧ c ∉ e.output := by
  constructor <;> intro hmem
  · rw [List.all_eq_true.1 e.input_word c hmem] at hc
    cases hc
  · rw [List.all_eq_true.1 e.output_word c hmem] at hc
    cases hc

/-- **The lines of an entry point stay lines**, and have neither comments nor directives. -/
theorem notMem_headLines {c : Char} (hc : c ∈ ['\n', '/', '#']) : ∀ h ∈ e.headLines, c ∉ h := by
  have hword : isWordChar c = false := by
    simp only [List.mem_cons, List.not_mem_nil, or_false] at hc
    rcases hc with rfl | rfl | rfl <;> decide
  obtain ⟨hinput, houtput⟩ := e.notMem_names hword
  intro h hh
  simp only [EntryMarker.headLines, List.mem_cons, List.not_mem_nil, or_false] at hc hh
  rcases hh with rfl | rfl | rfl
  · unfold EntryMarker.attributes
    rcases hc with rfl | rfl | rfl <;> cases e.stage <;> decide
  · unfold EntryMarker.signature
    rcases hc with rfl | rfl | rfl <;> cases e.stage <;> simp [hinput] <;> decide
  · unfold EntryMarker.declaration
    rcases hc with rfl | rfl | rfl <;> cases e.stage <;> simp [houtput] <;> decide

/-- Neither spaces nor words have braces. -/
theorem filter_isBrace_eq_nil {u : Text} (hu : u.all isSpace = true ∨ u.all isWordChar = true) :
    u.filter isBrace = [] := by
  refine List.filter_eq_nil_iff.2 fun c hc hbrace => ?_
  rcases hu with hu | hu
  · rw [isBrace_of_isSpace (List.all_eq_true.1 hu c hc)] at hbrace
    cases hbrace
  · have hword := List.all_eq_true.1 hu c hc
    simp only [isBrace, Bool.or_eq_true, decide_eq_true_eq] at hbrace
    rcases hbrace with rfl | rfl <;> exact absurd hword (by decide)

/-- **A marker opens one brace.** -/
theorem filter_isBrace_text : e.text.filter isBrace = ['{'] := by
  have hname : e.stage.name.toList.filter isBrace = [] := by cases e.stage <;> decide
  have hgap : e.gap.all isSpace = true := List.all_eq_true.2 fun c hc =>
    isSpace_of_isBlank (List.all_eq_true.1 e.gap_blanks c hc)
  have hspaces : ∀ u ∈ [e.indent, e.gap, e.beforeInput, e.behindInput, e.beforeArrow, e.behindArrow,
      e.beforeBrace, e.rest], u.filter isBrace = [] := by
    intro u hu
    refine filter_isBrace_eq_nil (.inl ?_)
    simp only [List.mem_cons, List.not_mem_nil, or_false] at hu
    rcases hu with rfl | rfl | rfl | rfl | rfl | rfl | rfl | rfl
    exacts [e.indent_spaces, hgap, e.beforeInput_spaces, e.behindInput_spaces, e.beforeArrow_spaces,
      e.behindArrow_spaces, e.beforeBrace_spaces, e.rest_spaces]
  simp only [List.forall_mem_cons] at hspaces
  simp [text, content, argument, hname, hspaces, filter_isBrace_eq_nil (.inr e.input_word),
    filter_isBrace_eq_nil (.inr e.output_word), isBrace]

/-- **The lines of an entry point open one brace.** -/
theorem filter_isBrace_headLines : e.headLines.flatten.filter isBrace = ['{'] := by
  have hinput := filter_isBrace_eq_nil (.inr e.input_word)
  have houtput := filter_isBrace_eq_nil (.inr e.output_word)
  rw [EntryMarker.headLines, List.flatten_cons, List.flatten_cons, List.flatten_singleton]
  unfold EntryMarker.attributes EntryMarker.signature EntryMarker.declaration
  simp only [List.filter_append, List.filter_cons, hinput, houtput]
  cases e.stage <;> decide

/-- **The lines of an entry point are no markers**, wherever they are indented to. -/
theorem parse?_headLine {u v : Text} (hu : u.all isSpace = true) (hv : v.all isSpace = true) :
    ∀ h ∈ e.headLines, EntryMarker.parse? (u ++ (h ++ v)) = none := by
  intro h hh
  simp only [EntryMarker.headLines, List.mem_cons, List.not_mem_nil, or_false] at hh
  rcases hh with rfl | rfl | rfl
  · have htrimmed : isTrimmed e.attributes = true := by
      unfold EntryMarker.attributes
      cases e.stage <;> decide
    rw [EntryMarker.parse?, trim_eq_of_isTrimmed htrimmed hu hv]
    unfold EntryMarker.attributes
    cases e.stage <;> decide
  · exact EntryMarker.parse?_eq_none (c := 'f') hu (by decide) (by decide)
  · have hindent : (u ++ List.replicate 4 ' ').all isSpace = true := by
      rw [List.all_append, hu]
      decide
    have := EntryMarker.parse?_eq_none (c := 'v') (s := "ar ".toList ++ (e.output ++ (':' :: ' ' ::
      (e.stage.outputType.toList ++ [';'])) ++ v)) hindent (by decide) (by decide)
    unfold EntryMarker.declaration
    simpa using this

/-! ### What a line becomes -/

/-- **What the line of a marker becomes**: the lines of the entry point, indented as the marker was, with
a newline at the end if the line has one. It opens the one brace that the line opened. -/
structure IsWrittenOut (p : Text) : Prop where
  eq_join : p = join ['\n'] (e.headLines.map (e.indent ++ ·)) ++
    if e.text.getLast? = some '\n' then ['\n'] else []
  indented : ∀ q ∈ lines p, e.indent <+: q
  newline_iff : p.getLast? = some '\n' ↔ e.text.getLast? = some '\n'
  braces : p.filter isBrace = ['{'] ∧ e.text.filter isBrace = ['{']

/-- The lines of an entry point with a newline, or nothing, at the end. -/
theorem lines_join_headLines (hindent : '\n' ∉ e.indent) {ending : Text}
    (hending : ending = [] ∨ ending = ['\n']) :
    lines (join ['\n'] (e.headLines.map (e.indent ++ ·)) ++ ending) =
      [e.indent ++ (e.attributes ++ ['\n']), e.indent ++ (e.signature ++ ['\n']),
        e.indent ++ (e.declaration ++ ending)] := by
  have hlines : ∀ h ∈ e.headLines, '\n' ∉ e.indent ++ h := fun h hh => by
    simp [hindent, e.notMem_headLines (c := '\n') (by decide) h hh]
  have hlast : e.declaration ≠ [] := by
    unfold EntryMarker.declaration
    simp
  simp only [EntryMarker.headLines, List.forall_mem_cons] at hlines
  obtain ⟨h₁, h₂, h₃, -⟩ := hlines
  have hdeclaration : lines (e.indent ++ e.declaration ++ ending) =
      [e.indent ++ e.declaration ++ ending] := by
    rcases hending with rfl | rfl
    · rw [List.append_nil]
      exact lines_of_notMem (by simp [hlast]) h₃
    · rw [lines_append_newline h₃]
      rfl
  have hjoin : join ['\n'] (e.headLines.map (e.indent ++ ·)) ++ ending =
      e.indent ++ e.attributes ++ '\n' :: (e.indent ++ e.signature ++ '\n' ::
        (e.indent ++ e.declaration ++ ending)) := by
    simp [EntryMarker.headLines, join, List.intercalate]
  rw [hjoin, lines_append_newline h₁, lines_append_newline h₂, hdeclaration]
  simp

/-- Neither the indentation of a line nor its marker has a newline. -/
theorem newline_notMem_of_mem_lines {s : Text} (hl : e.text ∈ lines s) :
    '\n' ∉ e.indent ∧ '\n' ∉ e.content := by
  constructor
  · have hrest : e.content ++ e.rest ≠ [] := by simp [content]
    have hline := (isLines_lines s).newline_notMem_dropLast hl
    rw [text, List.dropLast_append_of_ne_nil hrest] at hline
    exact fun hmem => hline (List.mem_append_left _ hmem)
  · have htrim := newline_notMem_trim_lines s _ hl
    rwa [e.trim_text] at htrim

/-- What the line of a marker becomes, line by line. -/
theorem IsWrittenOut.lines_eq {e : EntryLine} {p : Text} (h : e.IsWrittenOut p)
    (hindent : '\n' ∉ e.indent) :
    lines p = [e.indent ++ (e.attributes ++ ['\n']), e.indent ++ (e.signature ++ ['\n']),
      e.indent ++ (e.declaration ++ if e.text.getLast? = some '\n' then ['\n'] else [])] := by
  rw [h.eq_join]
  exact e.lines_join_headLines hindent (by split <;> simp)

/-- **The line of a marker is written out.** -/
theorem isWrittenOut_expandLine {s : Text} (hl : e.text ∈ lines s) :
    e.IsWrittenOut (EntryMarker.expandLine e.text) := by
  obtain ⟨hindent, hcontent⟩ := e.newline_notMem_of_mem_lines hl
  have heq : EntryMarker.expandLine e.text = join ['\n'] (e.headLines.map (e.indent ++ ·)) ++
      if e.text.getLast? = some '\n' then ['\n'] else [] := by
    rw [EntryMarker.expandLine, e.parse?_text hcontent, e.takeWhile_isSpace_text]
    exact congrArg (· ++ _) (EntryMarker.head_eq _ _)
  have hending : ∀ {ending : Text}, ending = [] ∨ ending = ['\n'] →
      (∀ q ∈ lines (join ['\n'] (e.headLines.map (e.indent ++ ·)) ++ ending), e.indent <+: q) := by
    intro ending h q hq
    rw [e.lines_join_headLines hindent h] at hq
    simp only [List.mem_cons, List.not_mem_nil, or_false] at hq
    rcases hq with rfl | rfl | rfl <;> exact List.prefix_append _ _
  refine ⟨heq, ?_, ?_, ?_, e.filter_isBrace_text⟩
  · rw [heq]
    exact hending (by split <;> simp)
  · rw [heq]
    split
    · simp_all
    · rename_i hlast
      have : (join ['\n'] (e.headLines.map (e.indent ++ ·)) ++ []).getLast? = some ';' := by
        unfold EntryMarker.headLines EntryMarker.declaration
        simp [join, List.intercalate, List.getLast?_append, List.getLast?_cons]
      rw [this]
      simp [hlast]
  · have hspaces := filter_isBrace_eq_nil (.inl e.indent_spaces)
    have hnewline : isBrace '\n' = false := by decide
    have hending : (if e.text.getLast? = some '\n' then ['\n'] else []).filter isBrace = [] := by
      split <;> decide
    have hhead := e.filter_isBrace_headLines
    rw [heq, List.filter_append, hending, List.append_nil]
    simp [EntryMarker.headLines, join, List.intercalate, hspaces, hnewline] at hhead ⊢
    exact hhead

/-- The entry point has more lines than its marker. -/
theorem IsWrittenOut.ne {e : EntryLine} {p : Text} (h : e.IsWrittenOut p) {s : Text}
    (hl : e.text ∈ lines s) : p ≠ e.text := by
  intro hp
  have hlines := h.lines_eq (e.newline_notMem_of_mem_lines hl).1
  rw [hp, (isLines_lines s).lines_of_mem hl] at hlines
  simp at hlines

/-- **No line that a marker becomes is a marker.** -/
theorem IsWrittenOut.parse?_eq_none {e : EntryLine} {p : Text} (h : e.IsWrittenOut p)
    (hindent : '\n' ∉ e.indent) : ∀ q ∈ lines p, EntryMarker.parse? q = none := by
  intro q hq
  rw [h.lines_eq hindent] at hq
  simp only [List.mem_cons, List.not_mem_nil, or_false] at hq
  have hhead := fun {v : Text} (hv : v.all isSpace = true) => e.parse?_headLine e.indent_spaces hv
  rcases hq with rfl | rfl | rfl
  · exact hhead (by decide) _ (by simp [EntryMarker.headLines])
  · exact hhead (by decide) _ (by simp [EntryMarker.headLines])
  · exact hhead (by split <;> decide) _ (by simp [EntryMarker.headLines])

end EntryLine

/-! ### Texts -/

namespace EntryMarker

/-- A line that is no marker is kept. -/
theorem expandLine_of_parse? {l : Text} (h : parse? l = none) : expandLine l = l := by
  rw [expandLine, h]

/-- **What a line becomes**: another text if and only if it is a marker, and then that of the marker. -/
theorem expandLine_cases {s l : Text} (hl : l ∈ lines s) :
    (expandLine l ≠ l ↔ ∃ e : EntryLine, e.text = l) ∧
      ∀ e : EntryLine, e.text = l → e.IsWrittenOut (expandLine l) := by
  have hwritten : ∀ e : EntryLine, e.text = l → e.IsWrittenOut (expandLine l) := by
    rintro e rfl
    exact e.isWrittenOut_expandLine hl
  refine ⟨⟨fun hne => ?_, ?_⟩, hwritten⟩
  · obtain ⟨m, hm⟩ := Option.ne_none_iff_exists'.1 fun hnone => hne (expandLine_of_parse? hnone)
    obtain ⟨e, he, -⟩ := exists_of_parse? hm
    exact ⟨e, he⟩
  · rintro ⟨e, rfl⟩
    exact (hwritten e rfl).ne hl

/-- **The lines that a line becomes are no markers.** -/
theorem parse?_of_mem_lines_expandLine {s l : Text} (hl : l ∈ lines s) :
    ∀ q ∈ lines (expandLine l), parse? q = none := by
  cases hm : parse? l with
  | none =>
    have hline : lines l = [l] := (isLines_lines s).lines_of_mem hl
    rw [expandLine_of_parse? hm, hline]
    exact List.forall_mem_singleton.2 hm
  | some m =>
    obtain ⟨e, rfl, -⟩ := exists_of_parse? hm
    exact (e.isWrittenOut_expandLine hl).parse?_eq_none (e.newline_notMem_of_mem_lines hl).1

/-- A line with a newline at its end becomes a text with one. -/
theorem startsLine_expandLine {s l : Text} (hl : l ∈ lines s) (hlast : l.getLast? = some '\n') :
    StartsLine (expandLine l) := by
  cases hm : parse? l with
  | none =>
    rw [expandLine_of_parse? hm]
    intro c hc
    simpa [hlast] using hc.symm
  | some m =>
    obtain ⟨e, rfl, -⟩ := exists_of_parse? hm
    intro c hc
    rw [(e.isWrittenOut_expandLine hl).newline_iff.2 hlast] at hc
    simpa using hc.symm

end EntryMarker

/-- A text without markers is kept. -/
theorem expandEntries_of_unmarked {s : Text} (h : ∀ l ∈ lines s, EntryMarker.parse? l = none) :
    expandEntries s = s := by
  have : (lines s).flatMap EntryMarker.expandLine = (lines s).flatMap id :=
    List.flatMap_congr fun l hl => EntryMarker.expandLine_of_parse? (h l hl)
  rw [expandEntries, this, List.flatMap_id, flatten_lines]

/-- **No line of a text with its markers written out is a marker.**

**Proof sketch.** Induction on the lines of the text: what a line becomes ends in a newline unless it is
the last one, so its lines are lines of the whole. -/
theorem parse?_of_mem_lines_expandEntries (s : Text) :
    ∀ q ∈ lines (expandEntries s), EntryMarker.parse? q = none := by
  have hrun : ∀ {ls : List Text}, IsLines ls → (∀ l ∈ ls, l ∈ lines s) →
      ∀ q ∈ lines (ls.flatMap EntryMarker.expandLine), EntryMarker.parse? q = none := by
    intro ls hls
    induction hls with
    | nil => simp [lines]
    | last hne h =>
      intro hmem
      rw [List.flatMap_singleton]
      exact EntryMarker.parse?_of_mem_lines_expandLine (hmem _ (by simp))
    | @cons u ls h _ ih =>
      intro hmem
      rw [List.forall_mem_cons] at hmem
      have hstarts := EntryMarker.startsLine_expandLine hmem.1 (by simp)
      rw [List.flatMap_cons, lines_append hstarts, List.forall_mem_append]
      exact ⟨EntryMarker.parse?_of_mem_lines_expandLine hmem.1, ih hmem.2⟩
  exact hrun (isLines_lines s) fun _ hl => hl

/-- **A text with its entry markers written out, line by line.** A line becomes another text if and only
if it is the line of a marker, and then the lines of the entry point; the other lines are kept where they
are. To write out the markers once more changes nothing.

**Proof sketch.** A line is read as a marker exactly if a marker stands in it
(`EntryMarker.parse?_eq_some_iff`), and the head that is put there is made of the lines of the entry point
(`EntryMarker.head_eq`). These start with an attribute that no parenthesis with an arrow follows, with
`fn` and with `var`, so none of them is a marker, and neither are the lines that are kept. -/
theorem expandEntries_by_line (s : Text) :
    (∃ ps : List Text, expandEntries s = ps.flatten ∧
      List.Forall₂ (fun l p => (p ≠ l ↔ ∃ e : EntryLine, e.text = l) ∧
        ∀ e : EntryLine, e.text = l → e.IsWrittenOut p) (lines s) ps) ∧
      expandEntries (expandEntries s) = expandEntries s := by
  refine ⟨⟨(lines s).map EntryMarker.expandLine, ?_, ?_⟩,
    expandEntries_of_unmarked (parse?_of_mem_lines_expandEntries s)⟩
  · rw [expandEntries, List.flatMap_def]
  · rw [List.forall₂_map_right_iff, List.forall₂_same]
    exact fun l hl => EntryMarker.expandLine_cases hl

end ShaderWeave
