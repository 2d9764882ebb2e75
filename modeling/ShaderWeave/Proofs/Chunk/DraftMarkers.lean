import ShaderWeave.Proofs.Chunk.DraftReading
import ShaderWeave.Proofs.Marker.Surroundings

set_option autoImplicit false

/-!
# Entry markers in drafts

The entry markers of a draft are lines of it, or of its comments; nothing else in it is read as one. So
the text of a draft with its markers written out is that of the tree in which they are, and a part of a
program that presents the draft is, but for its spaces, one that presents this tree.

## Main definitions

* `ShaderWeave.OpensEntry` — a text that starts like an entry marker, up to the arrow.

## Main results

* `ShaderWeave.Draft.expandEntries_text` — the text of a draft with its entry markers written out.
* `ShaderWeave.Draft.noStrayElse_expanded` — no `else` comes behind a conditional by that.
* `ShaderWeave.Draft.exists_presents_expanded` — a part of a program that presents a draft.
-/

namespace ShaderWeave

open Text Scan Include

/-! ### Texts that start like an entry marker -/

/-- **A text that starts like an entry marker**: with a mark, an argument and an arrow. -/
def OpensEntry (s : Text) : Prop :=
  ∃ (stage : Stage) (gap input pad : Text), gap.all isBlank = true ∧
    input.all (!endsArgument ·) = true ∧ pad.all isSpace = true ∧
    stage.mark ++ gap ++ '(' :: (input ++ ')' :: (pad ++ ['-', '>'])) <+: s

variable {u : Text}

/-- The first character of an entry marker. -/
theorem OpensEntry.head_eq {c : Char} (h : OpensEntry (c :: u)) : c = '@' := by
  obtain ⟨stage, gap, input, pad, -, -, -, q, hq⟩ := h
  exact (List.cons.inj hq).1.symm

/-- A text whose first line is a marker starts like one. -/
theorem OpensMarker.opensEntry {s : Text} (h : OpensMarker s) : OpensEntry s := by
  obtain ⟨hat, hparse⟩ := h
  obtain ⟨m, hm⟩ := Option.isSome_iff_exists.1 hparse
  obtain ⟨v, hv, -, hline⟩ := exists_firstLine_append s
  obtain ⟨e, he, -⟩ := EntryMarker.exists_of_parse? hm
  rw [← he] at hv hline
  have hindent : e.indent = [] := by
    cases hindent : e.indent with
    | nil => rfl
    | cons c w =>
      rw [hv, EntryLine.text, hindent, List.cons_append, List.cons_append, List.head?_cons] at hat
      obtain rfl := Option.some.inj hat
      exact absurd (hindent ▸ List.mem_cons_self)
        (notMem_of_all_isSpace e.indent_spaces (c := '@') (by decide))
  have hcontent : '\n' ∉ e.content := fun hmem => hline (by simp [EntryLine.text, hmem])
  refine ⟨e.stage, e.gap, e.argument, e.beforeArrow, e.gap_blanks, e.all_argument hcontent,
    e.beforeArrow_spaces, e.behindArrow ++ (e.output ++ (e.beforeBrace ++ '{' :: (e.rest ++ v))), ?_⟩
  rw [hv]
  simp [EntryLine.text, hindent, EntryLine.content, Stage.mark]

/-- No entry marker starts at a text without marks. -/
theorem not_opensEntry_of_isMarkless (h : isMarkless u = true) (hne : u ≠ []) (z : Text) :
    ¬OpensEntry (u ++ z) := by
  rintro ⟨stage, gap, input, pad, hgap, -, -, q, hq⟩
  obtain ⟨c, v, rfl⟩ := List.exists_cons_of_ne_nil hne
  rw [Stage.mark] at hq
  simp only [List.cons_append, List.append_assoc, List.cons.injEq, List.nil_append] at hq
  obtain ⟨rfl, hq⟩ := hq
  have hword := word?_mark stage hgap (c := '(') (by decide)
    (input ++ ')' :: (pad ++ '-' :: '>' :: q))
  rw [hq] at hword
  obtain ⟨d, r, hskip, hparen, -⟩ :=
    exists_of_startsNoHead (startsNoHead_of_isMarkless h) hword (Stage.ofName?_name stage)
  rw [skipBlanks_append hgap, skipBlanks_cons (by decide)] at hskip
  exact hparen (List.cons.inj hskip).1.symm

/-- An entry marker has a parenthesis in front of its first brace. -/
theorem not_opensEntry_of_notMem (hparen : '(' ∉ u) (hbrace : '{' ∈ u) (z : Text) :
    ¬OpensEntry (u ++ z) := by
  rintro ⟨stage, gap, input, pad, hgap, -, -, q, hq⟩
  have hmark : stage.mark ++ gap ++ ['('] <+: u ++ z := by
    rw [← hq, List.append_assoc (stage.mark ++ gap)]
    exact (List.prefix_append_right_inj _).2 (List.prefix_append ['('] _)
  rcases List.prefix_or_prefix_of_prefix hmark (List.prefix_append u z) with h | h
  · exact hparen (h.subset (by simp))
  · have hmem := h.subset hbrace
    rw [List.append_assoc, List.mem_append, List.mem_append] at hmem
    rcases hmem with hmem | hmem | hmem
    · cases stage <;> exact absurd hmem (by decide)
    · exact absurd (List.all_eq_true.1 hgap _ hmem) (by decide)
    · exact absurd hmem (by decide)

/-- **The head of a stage block is no entry marker**: braces come in the place of the arrow. -/
theorem not_opensEntry_stageHead (head : BlockHead) (z : Text) :
    ¬OpensEntry (head.text ++ '{' :: z) := by
  rintro ⟨stage, gap, input, pad, hgap, hinput, hpad, q, hq⟩
  rw [StageHead.text, Stage.mark, Stage.mark] at hq
  simp only [List.cons_append, List.append_assoc, List.cons.injEq, List.nil_append, true_and] at hq
  have hmarker := word?_mark stage hgap (c := '(') (by decide)
    (input ++ ')' :: (pad ++ '-' :: '>' :: q))
  rw [hq] at hmarker
  cases harg : head.argument with
  | none =>
    rw [harg, WrittenArgument.render?, List.nil_append,
      word?_mark head.stage head.gap_blank (by decide) z] at hmarker
    have hrest := congrArg skipBlanks (Prod.ext_iff.1 (Option.some.inj hmarker)).2
    rw [skipBlanks_append head.gap_blank, skipBlanks_append hgap, skipBlanks_cons (by decide),
      skipBlanks_cons (by decide)] at hrest
    cases hrest
  | some a =>
    rw [harg, WrittenArgument.render?, List.cons_append,
      word?_mark head.stage head.gap_blank (by decide)] at hmarker
    have hrest := congrArg skipBlanks (Prod.ext_iff.1 (Option.some.inj hmarker)).2
    rw [skipBlanks_append head.gap_blank, skipBlanks_append hgap, skipBlanks_cons (by decide),
      skipBlanks_cons (by decide)] at hrest
    have hbehind := congrArg parenthesized? hrest
    rw [List.append_assoc, List.cons_append, parenthesized?_append a.onLine,
      parenthesized?_append hinput] at hbehind
    have hspaces := congrArg trimStart (Prod.ext_iff.1 (Option.some.inj hbehind)).2
    rw [trimStart_append (Reflow.all_isSpace_of_all_isBlank a.pad_blank), trimStart_append hpad,
      trimStart_eq_self (by simp; decide), trimStart_eq_self (by simp; decide)] at hspaces
    cases hspaces

namespace Draft

/-! ### The sections of a draft -/

/-- No line of a text without marks starts like an entry marker. -/
theorem isUnmarked_of_isMarkless (h : isMarkless u = true) : IsUnmarked u := by
  rintro x p y z rfl - - - hy hopens
  exact not_opensEntry_of_isMarkless (isMarkless_of_append (isMarkless_of_append h)) hy z
    hopens.opensEntry

/-- No line of the head of a stage block starts like an entry marker. -/
theorem isUnmarked_stageHead (head : BlockHead) : IsUnmarked (head.text ++ ['{', '{']) := by
  intro x p y z h _ _ hp hy hopens
  replace hopens := hopens.opensEntry
  rcases eq_or_ne (x ++ p) [] with hnil | hne
  · obtain ⟨rfl, rfl⟩ := List.append_eq_nil_iff.1 hnil
    have : y ++ z = head.text ++ '{' :: ('{' :: z) := by
      rw [List.nil_append, List.nil_append] at h
      rw [← h]
      simp
    exact not_opensEntry_stageHead head _ (this ▸ hopens)
  · -- the line starts behind the mark, so in the argument or behind it
    obtain ⟨c, y, rfl⟩ := List.exists_cons_of_ne_nil hy
    obtain rfl := hopens.head_eq
    obtain ⟨d, w, hd⟩ := List.exists_cons_of_ne_nil hne
    have hw : w ++ '@' :: y = (head.stage.name.toList ++ head.gap) ++
        (WrittenArgument.render? head.argument ++ ['{', '{']) := by
      rw [← List.append_assoc, hd] at h
      simpa [StageHead.text, Stage.mark] using (List.cons.inj h).2.symm
    have hlast : '{' ∈ '@' :: y := by
      have := congrArg List.getLast? hw
      rw [List.getLast?_append_of_ne_nil _ (List.cons_ne_nil _ _)] at this
      exact List.mem_of_getLast? (this.trans (by simp))
    obtain ⟨a, ha⟩ : '@' :: y <:+ WrittenArgument.render? head.argument ++ ['{', '{'] := by
      rcases List.append_eq_append_iff.1 hw with ⟨b, hb, hy⟩ | ⟨a, -, ha⟩
      · cases b with
        | nil => exact ⟨[], hy⟩
        | cons e b =>
          obtain rfl := (List.cons.inj hy).1
          exact absurd (by rw [hb]; simp) head.at_notMem
      · exact ⟨a, ha.symm⟩
    refine not_opensEntry_of_notMem (fun hmem => head.paren_notMem_tail ?_) hlast z hopens
    cases a with
    | nil =>
      rw [List.nil_append] at ha
      cases harg : head.argument <;> rw [harg] at ha <;> cases ha
    | cons e a =>
      rw [← ha]
      exact List.mem_append_right a hmem

/-- **The sections of a draft are some.** -/
theorem isSection_of_mem {d : Draft} : ∀ p ∈ d.sections, IsSection p := by
  have hmarkless : ∀ {u : Text}, isMarkless u = true → IsSection (u, none) := isUnmarked_of_isMarkless
  have hopen : IsSection (['{'], none) := hmarkless (by decide)
  have hclose : IsSection (['}'], none) := hmarkless (by decide)
  rw [sections]
  induction d with
  | done => simp [slices]
  | plain t rest ih => exact List.forall_mem_cons.2 ⟨hmarkless t.markless, ih⟩
  | comment c rest ih => exact List.forall_mem_append.2 ⟨c.isSection_of_mem, ih⟩
  | directive l rest ih => exact List.forall_mem_cons.2 ⟨hmarkless l.markless, ih⟩
  | entry l body rest ihb ih =>
    obtain ⟨w, hw, -⟩ := l.isLine
    simp only [slices, List.forall_mem_cons, List.forall_mem_append]
    exact ⟨⟨hw ▸ startsLine_concat w, rfl⟩, ihb, hclose, ih⟩
  | scope body rest ihb ih =>
    simp only [slices, List.forall_mem_cons, List.forall_mem_append]
    exact ⟨hopen, ihb, hclose, ih⟩
  | when head body rest ihb ih =>
    simp only [slices, List.forall_mem_cons, List.forall_mem_append]
    exact ⟨hmarkless (isMarkless_ifHead head).2, ihb, hclose, ih⟩
  | either head body mid alt rest ihb iha ih =>
    simp only [slices, List.forall_mem_cons, List.forall_mem_append]
    exact ⟨hmarkless (isMarkless_ifHead head).2, ihb, hmarkless (isMarkless_elseHead mid).2, iha,
      hclose, ih⟩
  | block head body rest ihb ih =>
    simp only [slices, List.forall_mem_cons, List.forall_mem_append]
    exact ⟨isUnmarked_stageHead head, ihb, hmarkless (by decide), ih⟩

/-- **The text of a draft with its entry markers written out** is that of the tree in which they are. -/
theorem expandEntries_text {d : Draft} (h : d.Aligned true) :
    expandEntries d.text = d.expanded.render := by
  have := expandEntries_sections isUnmarked_nil (fun _ => startsLine_nil) isSection_of_mem
    (h.placed (k := .atMarkers))
  rw [flatMap_becomes_sections] at this
  rwa [List.nil_append, List.nil_append, sections, flatMap_slices] at this

/-! ### The word behind a conditional -/

/-- A text of blanks and word characters that does not end in a space, such as a word behind blanks. -/
structure IsLead (w : Text) : Prop where
  chars : ∀ c ∈ w, isBlank c = true ∨ isWordChar c = true
  last : ∀ c ∈ w.getLast?, isSpace c = false

/-- Only the empty one stands at the start of a text that starts with another character. -/
theorem IsLead.prefix_of_prefix_cons {w s : Text} (t : Text) {c : Char} (hw : IsLead w)
    (hblank : isBlank c = false) (hword : isWordChar c = false) (h : w <+: c :: s) : w <+: t := by
  cases w with
  | nil => exact List.nil_prefix
  | cons d w =>
    obtain rfl := (List.cons_prefix_cons.1 h).1
    have := hw.chars d List.mem_cons_self
    simp [hblank, hword] at this

/-- Such a text at the start of two others stays there if it does so behind the first. -/
theorem IsLead.prefix_append {w u s t : Text} (hw : IsLead w)
    (hst : ∀ {v}, IsLead v → v <+: s → v <+: t) (h : w <+: u ++ s) : w <+: u ++ t := by
  rcases prefix_append_cases hw.last h with hu | ⟨v, rfl, hv, hvlast⟩
  · exact hu.trans (List.prefix_append u t)
  · exact (List.prefix_append_right_inj u).2
      (hst ⟨fun c hc => hw.chars c (List.mem_append_right _ hc), hvlast⟩ hv)

/-- What stands at the start of a draft with its entry markers written out stands at its start. -/
theorem IsLead.prefix_text {w : Text} (hw : IsLead w) {d : Draft} (h : w <+: d.expanded.render) :
    w <+: d.text := by
  induction d generalizing w with
  | done => exact h
  | plain t rest ih => exact hw.prefix_append ih h
  | directive l rest ih => exact hw.prefix_append ih h
  | comment c rest => cases c <;> exact hw.prefix_of_prefix_cons _ (by decide) (by decide) h
  | scope => exact hw.prefix_of_prefix_cons _ (by decide) (by decide) h
  | when => exact hw.prefix_of_prefix_cons _ (by decide) (by decide) h
  | either => exact hw.prefix_of_prefix_cons _ (by decide) (by decide) h
  | block => exact hw.prefix_of_prefix_cons _ (by decide) (by decide) h
  | entry l body rest =>
    have hat : '@' ∉ w := fun hmem => absurd (hw.chars _ hmem) (by decide)
    have hhead : l.headBefore.text = l.indent ++ '@' :: _ := rfl
    rw [expanded, Markup.render, hhead, List.append_assoc] at h
    rw [eq_nil_of_prefix_marker l.indent_spaces hat hw.last h]
    exact List.nil_prefix

/-- **No `else` comes behind a conditional** where entry markers are written out. -/
theorem noStrayElse_expanded {d : Draft} (h : d.toMarkup.NoStrayElse) : d.expanded.NoStrayElse := by
  induction d with
  | done => trivial
  | plain t rest ih => exact ih h
  | comment c rest ih => exact ih h
  | directive l rest ih => exact ih h
  | scope body rest ihb ih => exact ⟨ihb h.1, ih h.2⟩
  | when head body rest ihb ih =>
    refine ⟨ihb h.1, ?_, ih h.2.2⟩
    have helse := h.2.1
    rw [← Bool.not_eq_true, Markup.startsWithElse_iff] at helse ⊢
    rintro ⟨w, r, hw, heq⟩
    have hlead : IsLead (w ++ "else".toList) := by
      refine ⟨fun c hc => ?_, by simp; decide⟩
      rcases List.mem_append.1 hc with hc | hc
      · exact .inl (List.all_eq_true.1 hw c hc)
      · exact .inr (List.all_eq_true.1 (show "else".toList.all isWordChar = true by decide) c hc)
    obtain ⟨r, hr⟩ := hlead.prefix_text (d := rest) (heq ▸ List.prefix_append _ r)
    exact helse ⟨w, r, hw, hr.symm⟩
  | either head body mid alt rest ihb iha ih => exact ⟨ihb h.1, iha h.2.1, ih h.2.2⟩
  | entry l body rest ihb ih => exact ⟨ihb h.1, ih h.2⟩
  | block head body rest ihb ih => exact ⟨⟨ihb h.1.1, trivial⟩, ih h.2⟩

/-! ### Parts of programs -/

/-- **A part of a program that presents a draft**, with its entry markers written out, becomes the same but
for breaks as one that presents the draft with its entry markers written out.

**Proof sketch.** The spaces behind the text of the draft stay behind it, or they are in the line of a
marker. Those in front of it are changed to those of the draft: that changes breaks only, also where a
marker comes first and the head that it becomes is indented by them. -/
theorem exists_presents_expanded {d : Draft} (h : d.Aligned true) {part : Text}
    (hpart : d.toMarkup.Presents part) :
    ∃ p, d.expanded.Presents p ∧ ∀ flags s,
      Respaced ('\n' :: expandConditionals flags (expandEntries part ++ s))
        ('\n' :: expandConditionals flags (p ++ s)) := by
  have htext := expandEntries_text h
  cases hpart with
  | blank hblank =>
    obtain ⟨v, hv, heq⟩ := exists_expandEntries_append_spaces hblank []
    refine ⟨[], .blank ?_, fun flags s => .refl _⟩
    rw [← htext]
    exact heq ▸ hv
  | @text x a y b v hx ha hb hv hd =>
    obtain ⟨b', hb', hb'eq⟩ := exists_expandEntries_append_spaces hb (a ++ y)
    obtain ⟨v', hv', hv'eq⟩ := exists_expandEntries_append_spaces hv (a ++ y)
    have hrender : d.expanded.render = [] ++ (expandEntries (a ++ y) ++ b') := by
      rw [← htext, text, hd, ← List.append_assoc, hb'eq, List.nil_append]
    have hpresents := Markup.Presents.text (x := []) rfl rfl hb' hv' hrender
    refine ⟨_, hpresents, fun flags s => ?_⟩
    have hpart : [] ++ (expandEntries (a ++ y) ++ (v' ++ ['\n'])) =
        expandEntries (a ++ (y ++ (v ++ ['\n']))) := by
      rw [List.nil_append, ← List.append_assoc, ← hv'eq, ← expandEntries_append_newline]
      simp only [List.append_assoc]
    rw [hpart]
    exact (respaced_spaces_append hx flags _ s).trans (respaced_spaces_append ha flags _ s).symm

end Draft

end ShaderWeave
