import ShaderWeave.Proofs.Include.Insertion
import ShaderWeave.Proofs.Scan.OpenComment

set_option autoImplicit false

/-!
# Where directives stand

A live directive is a part of its text that starts behind a newline, or where the text starts, ends in
front of one, or where the text ends, and starts outside block comments. Told in this way directives
can be followed from one text to another that has the same part in other surroundings.

## Main definitions

* `ShaderWeave.Text.StartsLine`, `ShaderWeave.Text.EndsLine` — a line starts behind a text, or ends in
  front of one.
* `ShaderWeave.Text.firstLine`, `ShaderWeave.Text.lastLine` — the lines at the ends of a text.
* `ShaderWeave.Include.Between` — a line between two texts is a live directive.

## Main results

* `ShaderWeave.Scan.foldl_commentOpenAfter_lines` — the state that is carried from line to line is that
  of the scan of the whole text.
* `ShaderWeave.Include.isLive_iff` — live directives by their place.
* `ShaderWeave.Include.IsLive.of_trim` — trimming makes no directives.
-/

namespace ShaderWeave

namespace Text

/-! ### The lines at the ends of a text -/

/-- A line starts behind a text. -/
def StartsLine (u : Text) : Prop :=
  ∀ c ∈ u.getLast?, c = '\n'

/-- A line ends in front of a text. -/
def EndsLine (v : Text) : Prop :=
  ∀ c ∈ v.head?, c = '\n'

/-- The first line of a text, without its newline. -/
def firstLine (s : Text) : Text :=
  s.takeWhile (· ≠ '\n')

/-- What stands behind the last newline of a text. -/
def lastLine (s : Text) : Text :=
  s.rtakeWhile (· ≠ '\n')

/-- The lines of a text that end in newlines. -/
def wholeLines (s : Text) : Text :=
  s.rdropWhile (· ≠ '\n')

/-- A line starts at the start of a text. -/
theorem startsLine_nil : StartsLine [] := by
  simp [StartsLine]

/-- A line starts behind a newline. -/
theorem startsLine_concat (u : Text) : StartsLine (u ++ ['\n']) := by
  simp [StartsLine]

/-- A line starts behind a text if and only if it is empty or ends in a newline. -/
theorem startsLine_iff {u : Text} : StartsLine u ↔ u = [] ∨ u.getLast? = some '\n' := by
  rcases List.eq_nil_or_concat u with rfl | ⟨t, c, rfl⟩ <;> simp [StartsLine]

/-- A line ends in front of the empty text. -/
theorem endsLine_nil : EndsLine [] := by
  simp [EndsLine]

/-- A line ends in front of a newline. -/
theorem endsLine_newline (s : Text) : EndsLine ('\n' :: s) := by
  simp [EndsLine]

/-- Whether a line starts behind a text that is not empty does not depend on what stands in front of it.
-/
theorem StartsLine.append {u : Text} (h : StartsLine u) (hne : u ≠ []) (x : Text) :
    StartsLine (x ++ u) := by
  rwa [StartsLine, List.getLast?_append_of_ne_nil _ hne]

/-- If a line starts behind a text, it does behind every end of it. -/
theorem StartsLine.of_append {x u : Text} (h : StartsLine (x ++ u)) : StartsLine u := by
  intro c hc
  rcases eq_or_ne u [] with rfl | hne
  · cases hc
  · exact h c (by rwa [List.getLast?_append_of_ne_nil _ hne])

/-- Whether a line ends in front of a text that is not empty does not depend on what stands behind it. -/
theorem EndsLine.append {v : Text} (h : EndsLine v) (hne : v ≠ []) (y : Text) :
    EndsLine (v ++ y) := by
  rwa [EndsLine, List.head?_append_of_ne_nil _ hne]

/-- If a line ends in front of a text, it does in front of every beginning of it. -/
theorem EndsLine.of_append {v y : Text} (h : EndsLine (v ++ y)) : EndsLine v := by
  cases v with
  | nil => exact endsLine_nil
  | cons d v => exact h

/-- A text without a newline at whose end a line ends is the first line. -/
theorem firstLine_append {w v : Text} (hw : '\n' ∉ w) (hv : EndsLine v) :
    firstLine (w ++ v) = w := by
  rw [firstLine, List.takeWhile_append_of_pos]
  · cases v with
    | nil => simp
    | cons c v =>
      obtain rfl := hv c rfl
      simp
  · intro c hc
    simpa using ne_of_mem_of_not_mem hc hw

/-- The first line of a text goes on with what stands in front of it. -/
theorem firstLine_append_of_notMem {w : Text} (hw : '\n' ∉ w) (s : Text) :
    firstLine (w ++ s) = w ++ firstLine s :=
  List.takeWhile_append_of_pos fun c hc => by simpa using ne_of_mem_of_not_mem hc hw

/-- A text without a newline behind which nothing stands, and in front of which a line starts, is the last
line. -/
theorem lastLine_append {u w : Text} (hu : StartsLine u) (hw : '\n' ∉ w) :
    lastLine (u ++ w) = w := by
  have hreverse : EndsLine u.reverse := fun c hc => hu c (by rwa [List.head?_reverse] at hc)
  have := firstLine_append (w := w.reverse) (by simpa using hw) hreverse
  rw [lastLine, List.rtakeWhile, List.reverse_append]
  rw [firstLine] at this
  rw [this, List.reverse_reverse]

/-- **The lines of texts put together** where a line starts. -/
theorem lines_append {u : Text} (h : StartsLine u) (s : Text) :
    lines (u ++ s) = lines u ++ lines s := by
  induction u with
  | nil => rfl
  | cons c u ih =>
    rcases eq_or_ne u [] with rfl | hne
    · obtain rfl := h c rfl
      rfl
    · have hu : StartsLine u := StartsLine.of_append (x := [c]) h
      obtain ⟨l, ls, hl⟩ : ∃ l ls, lines u = l :: ls := by
        refine List.exists_cons_of_ne_nil fun hnil => hne ?_
        rw [← flatten_lines u, hnil]
        rfl
      rw [List.cons_append, lines, lines, ih hu, hl]
      split <;> rfl

/-- Lines in front of another one end in newlines. -/
theorem IsLines.startsLine {ls ms : List Text} (h : IsLines (ls ++ ms)) (hne : ms ≠ []) :
    StartsLine ls.flatten := by
  induction ls with
  | nil => exact startsLine_nil
  | cons l ls ih =>
    rw [List.cons_append] at h
    generalize hall : ls ++ ms = all at h
    cases h with
    | last => exact absurd (List.append_eq_nil_iff.1 hall).2 hne
    | @cons u _ hu hls =>
      subst hall
      rw [List.flatten_cons]
      rcases eq_or_ne ls.flatten [] with hnil | hflat
      · rw [hnil, List.append_nil]
        intro c hc
        simpa using hc.symm
      · exact (ih hls).append hflat _

/-- The last line of a text has no newline. -/
theorem newline_notMem_lastLine (s : Text) : '\n' ∉ lastLine s := by
  intro hmem
  simpa using List.mem_rtakeWhile_imp hmem

/-- A line starts behind whole lines. -/
theorem startsLine_wholeLines (s : Text) : StartsLine (wholeLines s) := by
  intro c hc
  have hne : s.rdropWhile (· ≠ '\n') ≠ [] := List.ne_nil_of_mem (List.mem_of_getLast? hc)
  have := List.rdropWhile_last_not (· ≠ '\n') s hne
  rw [wholeLines, List.getLast?_eq_some_getLast hne, Option.mem_def, Option.some.injEq] at hc
  rw [hc] at this
  simpa using this

/-- A text is its last line behind whole lines. -/
theorem wholeLines_append_lastLine (s : Text) : wholeLines s ++ lastLine s = s :=
  List.rdropWhile_append_rtakeWhile

/-- A text is its last line behind others. -/
theorem exists_append_lastLine (s : Text) :
    ∃ u, s = u ++ lastLine s ∧ StartsLine u ∧ '\n' ∉ lastLine s :=
  ⟨wholeLines s, (wholeLines_append_lastLine s).symm, startsLine_wholeLines s,
    newline_notMem_lastLine s⟩

/-- A text is its first line in front of others. -/
theorem exists_firstLine_append (s : Text) :
    ∃ v, s = firstLine s ++ v ∧ EndsLine v ∧ '\n' ∉ firstLine s := by
  refine ⟨s.dropWhile (· ≠ '\n'), List.takeWhile_append_dropWhile.symm, fun c hc => ?_, ?_⟩
  · have := List.head?_dropWhile_not (· ≠ '\n') s
    rw [Option.mem_def.1 hc] at this
    simpa using this
  · intro hmem
    simpa using List.mem_takeWhile_imp hmem

/-- The first one of lines, without its newline, and what stands behind it. -/
theorem IsLines.exists_cons {l : Text} {ls : List Text} (h : IsLines (l :: ls)) :
    ∃ w v, '\n' ∉ w ∧ EndsLine v ∧ l ++ ls.flatten = w ++ v ∧ trim l = trim w := by
  cases h with
  | last hne hl => exact ⟨l, [], hl, endsLine_nil, rfl, rfl⟩
  | @cons w _ hw hls =>
    refine ⟨w, '\n' :: ls.flatten, hw, endsLine_newline _, by simp, ?_⟩
    exact trim_append_spaces w (by decide)

end Text

namespace Scan

open Text

/-- **The state that is carried from line to line** is that of the scan of the whole text.

**Proof sketch.** Induction on the lines, from both states: behind each line the state is what the pass
over the line says, and its newline leaves it as it is. -/
theorem foldl_commentOpenAfter_lines (s : Text) :
    (lines s).foldl commentOpenAfter false = openBehind s := by
  have hlines : ∀ {ls : List Text} (b : Bool), IsLines ls →
      openFrom b ls.flatten = ls.foldl commentOpenAfter b := by
    intro ls b h
    induction h generalizing b with
    | nil =>
      cases b
      · exact openBehind_nil
      · exact openFrom_true_of_unended rfl
    | @last u _ hu =>
      have := openFrom_append b hu endsLine_nil
      rw [List.append_nil] at this
      rw [List.flatten_singleton, this, List.foldl_cons, List.foldl_nil]
      cases commentOpenAfter b u
      · exact openBehind_nil
      · exact openFrom_true_of_unended rfl
    | @cons u ls hu _ ih =>
      rw [List.flatten_cons, List.append_assoc, List.singleton_append,
        openFrom_append b hu (endsLine_newline _), openFrom_newline, ih, List.foldl_cons,
        Include.commentOpenAfter_append_newline]
  have := hlines false (isLines_lines s)
  rw [flatten_lines] at this
  exact this.symm

end Scan

namespace Include

open Text Scan

/-- The name that a line includes does not depend on the spaces around it. -/
theorem name?_congr {l w : Text} (h : trim l = trim w) : name? l = name? w := by
  rw [name?, name?, h]

/-- The empty line includes no name. -/
theorem name?_nil : name? [] = none := by
  decide

/-- **A line between two texts that is a directive**: it stands outside block comments and includes the
name. -/
structure Between (name : String) (u w v : Text) : Prop where
  starts : StartsLine u
  onLine : '\n' ∉ w
  ends : EndsLine v
  outside : openBehind u = false
  includes : name? w = some name.toList

/-- **Live directives by their place.** -/
theorem isLive_iff {s : Text} {name : String} :
    IsLive s name ↔ ∃ u w v, s = u ++ (w ++ v) ∧ Between name u w v := by
  constructor
  · rintro ⟨before, l, after, hlines, hopen, hname⟩
    have hs : IsLines (before ++ l :: after) := hlines ▸ isLines_lines s
    obtain ⟨w, v, hw, hv, hl, htrim⟩ := hs.of_append.2.exists_cons
    refine ⟨before.flatten, w, v, ?_, hs.startsLine (by simp), hw, hv, ?_, ?_⟩
    · rw [← hl, ← List.flatten_cons, ← List.flatten_append, ← hlines, flatten_lines]
    · rw [← foldl_commentOpenAfter_lines, lines_flatten hs.of_append.1, hopen]
    · rw [← name?_congr htrim, hname]
  · rintro ⟨u, w, v, rfl, hu, hw, hv, hopen, hname⟩
    have hne : w ≠ [] := by
      rintro rfl
      rw [name?_nil] at hname
      cases hname
    rw [← foldl_commentOpenAfter_lines] at hopen
    cases v with
    | nil =>
      refine ⟨lines u, w, [], ?_, hopen, hname⟩
      rw [List.append_nil, lines_append hu, lines_of_notMem hne hw]
    | cons c v =>
      obtain rfl := hv c rfl
      refine ⟨lines u, w ++ ['\n'], lines v, ?_, hopen, ?_⟩
      · rw [lines_append hu, lines_append_newline hw]
      · rw [name?_congr (trim_append_spaces w (by decide)), hname]

namespace Between

variable {name : String} {u w v : Text}

/-- A directive stays one behind a complete text, if that does not prolong its line. -/
theorem append_left (h : Between name u w v) {x : Text} (hx : Complete x) (hu : u = [] → x = []) :
    Between name (x ++ u) w v := by
  rcases eq_or_ne u [] with rfl | hne
  · rwa [hu rfl]
  · refine ⟨h.starts.append hne x, h.onLine, h.ends, ?_, h.includes⟩
    rw [openBehind_append (hx u) hne, h.outside]

/-- A directive stays one in front of a text, if that does not prolong its line. -/
theorem append_right (h : Between name u w v) {y : Text} (hv : v = [] → y = []) :
    Between name u w (v ++ y) := by
  rcases eq_or_ne v [] with rfl | hne
  · rwa [hv rfl]
  · exact { h with ends := h.ends.append hne y }

/-- A directive behind a complete text is one without that text, if its line does not start there. -/
theorem of_append_left {x : Text} (h : Between name (x ++ u) w v) (hx : Complete x) (hne : u ≠ []) :
    Between name u w v := by
  refine { h with starts := h.starts.of_append, outside := ?_ }
  rw [← openBehind_append (hx u) hne, h.outside]

/-- A directive in front of a text is one without that text. -/
theorem of_append_right {y : Text} (h : Between name u w (v ++ y)) : Between name u w v :=
  { h with ends := h.ends.of_append }

end Between

/-- Texts of spaces have no comments. -/
theorem isUncommented_of_all_isSpace {x : Text} (hx : x.all isSpace = true) :
    isUncommented x = true := by
  refine isUncommented_of_notMem fun hslash => ?_
  have := List.all_eq_true.1 hx _ hslash
  revert this
  decide

/-- Spaces in front of a text keep its directives. -/
theorem IsLive.spaces_append {s x : Text} {name : String} (h : IsLive s name)
    (hx : x.all isSpace = true) : IsLive (x ++ s) name := by
  obtain ⟨u, w, v, rfl, hbetween⟩ := isLive_iff.1 h
  rcases eq_or_ne u [] with rfl | hne
  · -- the last one of the lines of spaces becomes part of the line
    obtain ⟨x₁, hx₁, hstarts, hlast⟩ := exists_append_lastLine x
    generalize lastLine x = x₂ at hx₁ hlast
    subst hx₁
    rw [List.all_append, Bool.and_eq_true] at hx
    refine isLive_iff.2 ⟨x₁, x₂ ++ w, v, by simp, hstarts, by simp [hlast, hbetween.onLine],
      hbetween.ends, ?_, ?_⟩
    · rw [openBehind, lexemes_of_isUncommented (isUncommented_of_all_isSpace hx.1),
        List.getLast?_map]
      cases x₁.getLast? <;> rfl
    · rw [← hbetween.includes]
      refine name?_congr ?_
      rw [trim, trimStart_append hx.2, trim]
  · have hcomplete := complete_of_isUncommented (isUncommented_of_all_isSpace hx)
    exact isLive_iff.2 ⟨x ++ u, w, v, by simp, hbetween.append_left hcomplete fun h => absurd h hne⟩

/-- Spaces behind a text keep its directives. -/
theorem IsLive.append_spaces {s y : Text} {name : String} (h : IsLive s name)
    (hy : y.all isSpace = true) : IsLive (s ++ y) name := by
  obtain ⟨u, w, v, rfl, hbetween⟩ := isLive_iff.1 h
  rcases eq_or_ne v [] with rfl | hne
  · obtain ⟨y₂, hy₂, hends, hfirst⟩ := exists_firstLine_append y
    generalize firstLine y = y₁ at hy₂ hfirst
    subst hy₂
    rw [List.all_append, Bool.and_eq_true] at hy
    refine isLive_iff.2 ⟨u, w ++ y₁, y₂, by simp, hbetween.starts, by simp [hbetween.onLine, hfirst],
      hends, hbetween.outside, ?_⟩
    rw [name?_congr (trim_append_spaces w hy.1), hbetween.includes]
  · exact isLive_iff.2 ⟨u, w, v ++ y, by simp, hbetween.append_right fun h => absurd h hne⟩

/-- **Trimming makes no directives.** -/
theorem IsLive.of_trim {s : Text} {name : String} (h : IsLive (trim s) name) : IsLive s name := by
  obtain ⟨x, y, hx, hy, hs⟩ := exists_trim s
  rw [hs]
  exact (h.append_spaces hy).spaces_append hx

end Include

end ShaderWeave
