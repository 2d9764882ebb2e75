import ShaderWeave.Proofs.Marker.Expansion

set_option autoImplicit false

/-!
# Entry markers and the spaces around them

The spaces at the ends of a text matter little to the entry markers in it. Those behind the text stay
behind what it becomes, but for those in the line of a marker. Those in front of it are its indentation,
and that of the lines that a marker becomes, so they can be told from others only where a line is
indented. And what a text becomes starts with the same words as the text.

## Main results

* `ShaderWeave.exists_expandEntries_append_spaces` — spaces behind a text stay behind it.
* `ShaderWeave.respaced_spaces_append` — spaces in front of a text change breaks only.
* `ShaderWeave.startsWithElse_expandEntries` — no `else` comes to the start of a text.
-/

namespace ShaderWeave

open Text Scan

/-! ### Spaces behind a text -/

/-- Spaces are no marker. -/
theorem EntryMarker.parse?_of_all_isSpace {l : Text} (h : l.all isSpace = true) : parse? l = none := by
  rw [parse?, trim_eq_nil_iff.2 h]
  rfl

/-- **A space behind a text stays there** where markers are written out, or it goes with its line. -/
theorem exists_expandEntries_concat {c : Char} (hc : isSpace c = true) (s : Text) :
    ∃ v, v.all isSpace = true ∧ expandEntries (s ++ [c]) = expandEntries s ++ v := by
  by_cases hnewline : c = '\n'
  · subst hnewline
    exact ⟨['\n'], by decide, expandEntries_append_newline s⟩
  obtain ⟨u, hs, hstarts, hlast⟩ := exists_append_lastLine s
  generalize lastLine s = l at hs hlast
  subst hs
  have hparse : EntryMarker.parse? (l ++ [c]) = EntryMarker.parse? l :=
    EntryMarker.parse?_congr (trim_append_spaces l (by simp [hc]))
  rw [List.append_assoc, expandEntries_append hstarts, expandEntries_append hstarts,
    expandEntries_of_notMem (l := l ++ [c]) (by simp [hlast, Ne.symm hnewline]),
    expandEntries_of_notMem hlast]
  cases hm : EntryMarker.parse? l with
  | none =>
    rw [EntryMarker.expandLine_of_parse? hm, EntryMarker.expandLine_of_parse? (hparse.trans hm)]
    exact ⟨[c], by simp [hc], by simp⟩
  | some m =>
    have hlast : l.getLast? ≠ some '\n' := fun h => hlast (List.mem_of_getLast? h)
    refine ⟨[], rfl, ?_⟩
    rw [EntryMarker.expandLine, EntryMarker.expandLine, hparse, hm]
    simp [EntryMarker.takeWhile_append_of_parse? hm, hlast, hnewline]

/-- **Spaces behind a text stay behind what it becomes**, but for those in the line of a marker. -/
theorem exists_expandEntries_append_spaces {u : Text} (hu : u.all isSpace = true) (s : Text) :
    ∃ v, v.all isSpace = true ∧ expandEntries (s ++ u) = expandEntries s ++ v := by
  induction u using List.reverseRecOn with
  | nil => exact ⟨[], rfl, by simp⟩
  | append_singleton u c ih =>
    rw [List.all_append, Bool.and_eq_true] at hu
    obtain ⟨v, hv, heq⟩ := ih hu.1
    obtain ⟨w, hw, hmore⟩ := exists_expandEntries_concat (by simpa using hu.2) (s ++ u)
    refine ⟨v ++ w, by simp [hv, hw], ?_⟩
    rw [← List.append_assoc, hmore, heq, List.append_assoc]

/-! ### Spaces in front of a text -/

/-- The head of an entry point is inert. -/
theorem EntryLine.inert_head (e : EntryLine) {u : Text} (hu : u.all isSpace = true) :
    Inert (e.head u) := by
  have hnot : ∀ {c : Char}, c ∈ ['/', '#'] → c ∉ e.head u := by
    intro c hc
    have hindent : c ∉ u := by
      simp only [List.mem_cons, List.not_mem_nil, or_false] at hc
      rcases hc with rfl | rfl <;> exact notMem_of_all_isSpace hu (by decide)
    have hlines := e.notMem_headLines (List.mem_cons_of_mem _ hc)
    have hnewline : c ≠ '\n' := by
      rintro rfl
      exact absurd hc (by decide)
    simp only [EntryMarker.headLines, List.forall_mem_cons] at hlines
    simp [e.head_eq, EntryMarker.headLines, join, List.intercalate, hindent, hlines, hnewline]
  exact inert_of_isUncommented (isUncommented_of_notMem (hnot (by decide)))
    (isClearOf_of_notMem (hnot (by decide)))

/-- The heads of an entry point with other indentations are respaced. -/
theorem EntryMarker.respaced_head (m : EntryMarker) {u v : Text} (hu : u.all isSpace = true)
    (hv : v.all isSpace = true) : Respaced ('\n' :: m.head u) ('\n' :: m.head v) := by
  have hgap : ∀ {s t : Text}, Respaced s t → Respaced ('\n' :: (u ++ s)) ('\n' :: (v ++ t)) := fun h =>
    .gap (isBreak_newline.append_spaces hu) (isBreak_newline.append_spaces hv) h
  have hlines : ∀ w : Text, '\n' :: m.head w = '\n' :: (w ++ (m.attributes ++ '\n' :: (w ++
      (m.signature ++ '\n' :: (w ++ m.declaration))))) := by
    intro w
    simp [m.head_eq, headLines, join, List.intercalate]
  rw [hlines, hlines]
  exact hgap (.append_left _ (hgap (.append_left _ (hgap (.refl _)))))

/-- **A space in front of a text** changes a break only. -/
theorem respaced_space_cons {c : Char} (hc : isSpace c = true) (flags : Flags) (y s : Text) :
    Respaced ('\n' :: expandConditionals flags (expandEntries (c :: y) ++ s))
      ('\n' :: expandConditionals flags (expandEntries y ++ s)) := by
  have hspace : Inert [c] := inert_of_all_isSpace (by simp [hc])
  have hgap : ∀ t : Text, Respaced ('\n' :: c :: t) ('\n' :: t) := fun t =>
    .gap (u := ['\n', c]) (v := ['\n']) (isBreak_newline.append_spaces (v := [c]) (by simp [hc]))
      isBreak_newline (.refl t)
  have hkept : ∀ t : Text, Respaced ('\n' :: expandConditionals flags (c :: t))
      ('\n' :: expandConditionals flags t) := by
    intro t
    rw [show expandConditionals flags (c :: t) = c :: expandConditionals flags t from
      hspace.expand_append flags t]
    exact hgap _
  by_cases hnewline : c = '\n'
  · subst hnewline
    rw [show expandEntries ('\n' :: y) = '\n' :: expandEntries y from
      expandEntries_append (startsLine_concat []) y]
    exact hkept _
  cases hy : lines y with
  | nil =>
    obtain rfl : y = [] := by
      rw [← flatten_lines y, hy]
      rfl
    rw [expandEntries_of_notMem (by simpa using Ne.symm hnewline),
      EntryMarker.expandLine_of_parse? (EntryMarker.parse?_of_all_isSpace (by simp [hc]))]
    exact hkept s
  | cons l ls =>
    have hlines : lines (c :: y) = (c :: l) :: ls := by
      rw [lines, if_neg hnewline, hy]
    have hparse : EntryMarker.parse? (c :: l) = EntryMarker.parse? l :=
      EntryMarker.parse?_congr (trim_spaces_append (u := [c]) (by simp [hc]) l)
    rw [expandEntries, expandEntries, hlines, hy, List.flatMap_cons, List.flatMap_cons]
    cases hm : EntryMarker.parse? l with
    | none =>
      rw [EntryMarker.expandLine_of_parse? hm, EntryMarker.expandLine_of_parse? (hparse.trans hm)]
      exact hkept _
    | some m =>
      -- the line of a marker, and with it the lines that it becomes, is indented by one space more
      obtain ⟨e, rfl, rfl⟩ := EntryMarker.exists_of_parse? hm
      have hindent := e.indent_spaces
      have hlast : (c :: e.text).getLast? = e.text.getLast? := by
        simp [e.text_eq, List.getLast?_cons, List.getLast?_append]
      rw [EntryMarker.expandLine, EntryMarker.expandLine, hparse, hm]
      simp only [List.takeWhile_cons_of_pos hc, e.takeWhile_isSpace_text, hlast, List.append_assoc]
      rw [(e.inert_head (by simp [hc, hindent])).expand_append, (e.inert_head hindent).expand_append]
      exact (e.respaced_head (by simp [hc, hindent]) hindent).append (.refl _)

/-- **Spaces in front of a text change breaks only.** -/
theorem respaced_spaces_append {x : Text} (hx : x.all isSpace = true) (flags : Flags) (y s : Text) :
    Respaced ('\n' :: expandConditionals flags (expandEntries (x ++ y) ++ s))
      ('\n' :: expandConditionals flags (expandEntries y ++ s)) := by
  induction x with
  | nil => exact .refl _
  | cons c x ih =>
    rw [List.all_cons, Bool.and_eq_true] at hx
    exact (respaced_space_cons hx.1 flags (x ++ y) s).trans (ih hx.2)

/-! ### The word at the start of a text -/

/-- What does not end in a space does not stand at the start of spaces. -/
theorem eq_nil_of_prefix_spaces {w u : Text} (hu : u.all isSpace = true)
    (hlast : ∀ c ∈ w.getLast?, isSpace c = false) (h : w <+: u) : w = [] := by
  rcases List.eq_nil_or_concat w with rfl | ⟨w, c, rfl⟩
  · rfl
  · exact absurd (h.subset (by simp)) (notMem_of_all_isSpace hu (hlast c (by simp)))

/-- What stands at the start of two texts, one behind the other, stands at the start of the first, or
goes on in the second. -/
theorem prefix_append_cases {w u s : Text} (hlast : ∀ c ∈ w.getLast?, isSpace c = false)
    (h : w <+: u ++ s) :
    w <+: u ∨ ∃ v, w = u ++ v ∧ v <+: s ∧ ∀ c ∈ v.getLast?, isSpace c = false := by
  rcases List.prefix_or_prefix_of_prefix h (List.prefix_append u s) with hw | ⟨v, rfl⟩
  · exact .inl hw
  · refine .inr ⟨v, rfl, (List.prefix_append_right_inj u).1 h, fun c hc => hlast c ?_⟩
    exact List.mem_getLast?_append_of_mem_getLast? hc

/-- It does not stand at the start of a marker, if it has no `@`. -/
theorem eq_nil_of_prefix_marker {w u s : Text} (hu : u.all isSpace = true) (hat : '@' ∉ w)
    (hlast : ∀ c ∈ w.getLast?, isSpace c = false) (h : w <+: u ++ '@' :: s) : w = [] := by
  rcases prefix_append_cases hlast h with hw | ⟨v, rfl, hv, -⟩
  · exact eq_nil_of_prefix_spaces hu hlast hw
  · cases v with
    | nil =>
      rw [List.append_nil] at hlast ⊢
      exact eq_nil_of_prefix_spaces hu hlast (List.prefix_refl u)
    | cons c v =>
      obtain rfl := (List.cons_prefix_cons.1 hv).1
      exact absurd (by simp) hat

/-- What a marker becomes starts with an `@` behind the indentation. -/
theorem EntryLine.exists_expandLine_eq {e : EntryLine} {m : EntryMarker}
    (hm : EntryMarker.parse? e.text = some m) :
    ∃ r, EntryMarker.expandLine e.text = e.indent ++ '@' :: r := by
  rw [EntryMarker.expandLine, hm, e.takeWhile_isSpace_text]
  simp only [EntryMarker.head_eq, EntryMarker.headLines, EntryMarker.attributes, join,
    List.intercalate, List.map_cons, List.intersperse, List.flatten_cons, List.append_assoc,
    List.cons_append]
  exact ⟨_, rfl⟩

/-- **What stands at the start of a text with its markers written out** stands at its start, if it has no
`@` and does not end in a space. -/
theorem prefix_of_prefix_expandEntries {w s : Text} (hat : '@' ∉ w)
    (hlast : ∀ c ∈ w.getLast?, isSpace c = false) (h : w <+: expandEntries s) : w <+: s := by
  rw [expandEntries] at h
  rw [← flatten_lines s]
  generalize lines s = ls at h ⊢
  induction ls generalizing w with
  | nil => exact h
  | cons l ls ih =>
    rw [List.flatMap_cons] at h
    rw [List.flatten_cons]
    cases hm : EntryMarker.parse? l with
    | none =>
      rw [EntryMarker.expandLine_of_parse? hm] at h
      rcases prefix_append_cases hlast h with hw | ⟨v, rfl, hv, hvlast⟩
      · exact hw.trans (List.prefix_append l _)
      · rw [List.prefix_append_right_inj]
        exact ih (fun hmem => hat (List.mem_append_right _ hmem)) hvlast hv
    | some m =>
      obtain ⟨e, rfl, -⟩ := EntryMarker.exists_of_parse? hm
      obtain ⟨r, hr⟩ := EntryLine.exists_expandLine_eq hm
      rw [hr, List.append_assoc, List.cons_append] at h
      rw [eq_nil_of_prefix_marker e.indent_spaces hat hlast h]
      exact List.nil_prefix

/-- **No `else` comes to the start of a text** where markers are written out. -/
theorem startsWithElse_expandEntries {s : Text} (h : Markup.startsWithElse s = false) :
    Markup.startsWithElse (expandEntries s) = false := by
  rw [← Bool.not_eq_true, Markup.startsWithElse_iff] at h ⊢
  rintro ⟨w, r, hw, heq⟩
  obtain ⟨r, hr⟩ := prefix_of_prefix_expandEntries (w := w ++ "else".toList)
    (by
      rw [List.mem_append, not_or]
      exact ⟨fun hmem => absurd (List.all_eq_true.1 hw _ hmem) (by decide), by decide⟩)
    (by simp; decide) (heq ▸ List.prefix_append _ r)
  exact h ⟨w, r, hw, hr.symm⟩

end ShaderWeave
