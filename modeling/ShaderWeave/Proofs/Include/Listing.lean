import ShaderWeave.Proofs.Chunk.LastNewline
import ShaderWeave.Proofs.Composition.Detection
import ShaderWeave.Proofs.Include.Stretches

set_option autoImplicit false

/-!
# Listed names and what they leave alone

The directives for listed names go to one place of the text, where a line starts and no block comment is
open. So the text is cut there, and one more directive is read between the two parts without a trace in
what is left of the text when its directives are taken out, or in the stage that the text is for.

## Main definitions

* `ShaderWeave.Include.IsListable` — a name that is read back from its directive, on a line that starts
  no block comment.
* `ShaderWeave.Include.StartsNoBlock` — no directive of a text has the start of a block comment on its line.
* `ShaderWeave.Include.ReadAlike` — texts that are the same to all that reads directives.

## Main results

* `ShaderWeave.Include.exists_cut` — the place where further directives go.
* `ShaderWeave.Include.stripIncludes_line`, `ShaderWeave.Include.stageMarkers_line` — one more directive
  leaves the rest of the text and its stage as they are.
* `ShaderWeave.insertIncludes_adds` — inserted directives add their names and nothing else.
-/

namespace ShaderWeave

open Text Scan

/-! ### Texts without the start of a block comment -/

namespace Text

/-- A word stands before a character that it does not have, or behind it. -/
theorem occurs_append_cons {pat : Text} {c : Char} (hne : pat ≠ []) (hc : c ∉ pat) (x y : Text) :
    occurs pat (x ++ c :: y) = (occurs pat x || occurs pat y) := by
  have hempty : pat.isEmpty = false := by simpa using hne
  induction x with
  | nil =>
    have hnone : after? pat (c :: y) = none := by
      refine after?_eq_none_iff.2 fun h => ?_
      exact hne (List.prefix_nil.1 (prefix_of_prefix_append_cons (t := []) hc h))
    simp [occurs, hnone, hempty]
  | cons d x ih =>
    have hfirst : (after? pat (d :: x ++ c :: y)).isSome = (after? pat (d :: x)).isSome := by
      rw [Bool.eq_iff_iff, Option.isSome_iff_ne_none, Option.isSome_iff_ne_none, ne_eq, ne_eq,
        after?_eq_none_iff, after?_eq_none_iff, not_not, not_not]
      exact ⟨prefix_of_prefix_append_cons hc, fun h => h.trans (List.prefix_append _ _)⟩
    rw [List.cons_append] at hfirst ⊢
    rw [occurs, occurs, hfirst, ih, Bool.or_assoc]

end Text

namespace Include

/-- A line without the start of a block comment leaves none open. -/
theorem commentOpenAfter_of_occurs {l : Text} (h : occurs ['/', '*'] l = false) :
    commentOpenAfter false l = false := by
  rw [commentOpenAfter]
  generalize hb : false = b
  fun_induction liveLine b l with
  | case1 => rfl
  | case2 => cases hb
  | case3 => cases hb
  | case4 => rfl
  | case5 s => simp [occurs, after?] at h
  | case6 c s _ _ ih =>
    rw [occurs, Bool.or_eq_false_iff] at h
    exact ih h.2 rfl

/-- The directive of a name has the start of a block comment only in the name. -/
theorem occurs_line (name : String) : occurs ['/', '*'] (line name) = occurs ['/', '*'] name.toList := by
  have hkeyword : occurs ['/', '*'] "#include".toList = false := by decide
  have hend : occurs ['/', '*'] ['\n'] = false := by decide
  rw [line_eq]
  generalize "#include".toList = keyword at hkeyword
  have hcut : (keyword ++ ' ' :: '<' :: (name.toList ++ ['>'])) ++ ['\n'] =
      keyword ++ ' ' :: ([] ++ '<' :: (name.toList ++ '>' :: ['\n'])) := by simp
  rw [hcut, occurs_append_cons (by decide) (by decide), occurs_append_cons (by decide) (by decide),
    occurs_append_cons (by decide) (by decide), hkeyword, hend]
  simp [occurs]

/-- **A name that can be listed**: it is plain and has no start of a block comment. -/
structure IsListable (name : String) : Prop where
  plain : isPlain name.toList = true
  noBlock : occurs ['/', '*'] name.toList = false

/-- Whether a name can be listed can be computed. -/
instance decidableIsListable (name : String) : Decidable (IsListable name) :=
  decidable_of_iff (isPlain name.toList = true ∧ occurs ['/', '*'] name.toList = false)
    ⟨fun h => ⟨h.1, h.2⟩, fun h => ⟨h.plain, h.noBlock⟩⟩

/-- **No directive of a text has the start of a block comment on its line.** -/
def StartsNoBlock (s : Text) : Prop :=
  ∀ p ∈ directives s, p.2.isSome = true → occurs ['/', '*'] p.1 = false

/-- Whether a directive has the start of a block comment on its line can be computed. -/
instance decidableStartsNoBlock (s : Text) : Decidable (StartsNoBlock s) :=
  inferInstanceAs (Decidable (∀ p ∈ directives s, _))

/-- A directive without the start of a block comment leaves none open. -/
theorem StartsNoBlock.closesComments {s : Text} (h : StartsNoBlock s) : ClosesComments s :=
  fun p hp hsome => commentOpenAfter_of_occurs (h p hp hsome)

/-- The directive of a name without the start of a block comment leaves no comment open. -/
theorem closed_line {name : String} (h : occurs ['/', '*'] name.toList = false) :
    commentOpenAfter false (line name) = false :=
  commentOpenAfter_of_occurs (by rw [occurs_line, h])

/-- The directive of a name that can be listed stays on its line. -/
theorem IsListable.staysOnLine {name : String} (h : IsListable name) : StaysOnLine name where
  notMem := fun hmem => by
    have := (isPlain_iff.1 h.plain).2 _ hmem
    revert this
    decide
  closed := closed_line h.noBlock

/-- The directive of a name that can be listed is a directive for the name. -/
theorem IsListable.isDirective {name : String} (h : IsListable name) :
    IsDirective (line name) name.toList where
  isLine := ⟨_, line_eq name, by simp [h.staysOnLine.notMem]⟩
  closed := closed_line h.noBlock
  includes := by rw [name?_line, readBack?_of_isPlain h.plain, Option.map_some]

/-- A directive that is written out ends its line. -/
theorem startsLine_line (name : String) : StartsLine (line name) := by
  rw [line_eq]
  exact startsLine_concat _

/-- A directive that is written out is not empty. -/
theorem line_ne_nil (name : String) : line name ≠ [] := by
  rw [line_eq]
  simp

/-- No block comment is open behind a text without the start of one. -/
theorem openBehind_of_occurs {s : Text} (h : occurs ['/', '*'] s = false) : openBehind s = false := by
  have hlines : ∀ l ∈ lines s, commentOpenAfter false l = false := by
    intro l hl
    refine commentOpenAfter_of_occurs (Bool.eq_false_iff.2 fun hoccurs => ?_)
    obtain ⟨front, back, hsplit⟩ := List.append_of_mem hl
    have hline : l <:+: s := ⟨front.flatten, back.flatten, by rw [← flatten_lines s, hsplit]; simp⟩
    have hword := occurs_iff_infix.1 hoccurs
    have := occurs_iff_infix.2 (hword.trans hline)
    rw [h] at this
    cases this
  rw [← foldl_commentOpenAfter_lines]
  generalize lines s = ls at hlines
  induction ls with
  | nil => rfl
  | cons l ls ih =>
    rw [List.forall_mem_cons] at hlines
    rw [List.foldl_cons, hlines.1, ih hlines.2]

/-- No comment is open behind the directive of a name without the start of one. -/
theorem openBehind_line {name : String} (h : occurs ['/', '*'] name.toList = false) :
    openBehind (line name) = false :=
  openBehind_of_occurs (by rw [occurs_line, h])

/-! ### Texts cut at the start of a line -/

variable {u v : Text}

/-- The directives of a text and of whole lines in front of it can be removed apart, if no comment goes on
from one to the other. -/
theorem stripIncludes_append (hu : StartsLine u) (hopen : openBehind u = false) (v : Text) :
    stripIncludes (u ++ v) = stripIncludes u ++ stripIncludes v := by
  rw [stripIncludes, directives_append hu hopen, List.filter_append, List.flatMap_append]
  rfl

/-- **One more directive leaves the rest of the text as it is.** -/
theorem stripIncludes_line (hu : StartsLine u) (hopen : openBehind u = false) {name : String}
    (h : IsListable name) (v : Text) : stripIncludes (u ++ (line name ++ v)) = stripIncludes (u ++ v) := by
  have hline : stripIncludes (line name ++ v) = stripIncludes v := by
    rw [stripIncludes, h.isDirective.directives_append, List.filter_cons_of_neg (by simp)]
    rfl
  rw [stripIncludes_append hu hopen, stripIncludes_append hu hopen, hline]

/-- **One more directive leaves the stage of the text as it is**, if the name has neither `@` nor `{`. -/
theorem stageMarkers_line (hu : StartsLine u) (hopen : openBehind u = false) {name : String}
    (h : occurs ['/', '*'] name.toList = false) (hat : '@' ∉ name.toList) (hbrace : '{' ∉ name.toList)
    (v : Text) : stageMarkers (u ++ (line name ++ v)) = stageMarkers (u ++ v) := by
  have hcomplete := complete_of_startsLine (startsLine_line name) (openBehind_line h)
  rw [stageMarkers_append hu hopen, stageMarkers_append hu hopen,
    stageMarkers_append_of_notMem hcomplete (by simp [line_eq, hat]) (by simp [line_eq, hbrace])]

/-- The directives of names leave the rest of the text as it is. -/
theorem stripIncludes_lines (hu : StartsLine u) (hopen : openBehind u = false) {names : List String}
    (h : ∀ n ∈ names, IsListable n) (v : Text) :
    stripIncludes (u ++ (names.flatMap line ++ v)) = stripIncludes (u ++ v) := by
  induction names with
  | nil => rfl
  | cons n names ih =>
    rw [List.forall_mem_cons] at h
    rw [List.flatMap_cons, List.append_assoc, stripIncludes_line hu hopen h.1, ih h.2]

/-- The directives of names leave the stage of the text as it is. -/
theorem stageMarkers_lines (hu : StartsLine u) (hopen : openBehind u = false) {names : List String}
    (h : ∀ n ∈ names, occurs ['/', '*'] n.toList = false)
    (hchars : ∀ n ∈ names, '@' ∉ n.toList ∧ '{' ∉ n.toList) (v : Text) :
    stageMarkers (u ++ (names.flatMap line ++ v)) = stageMarkers (u ++ v) := by
  induction names with
  | nil => rfl
  | cons n names ih =>
    rw [List.forall_mem_cons] at h hchars
    rw [List.flatMap_cons, List.append_assoc,
      stageMarkers_line hu hopen h.1 hchars.1.1 hchars.1.2, ih h.2 hchars.2]

/-- The directives of names keep a place at the start of a line. -/
theorem startsLine_append_lines (hu : StartsLine u) (names : List String) :
    StartsLine (u ++ names.flatMap line) := by
  induction names generalizing u with
  | nil => simpa using hu
  | cons n names ih =>
    rw [List.flatMap_cons, ← List.append_assoc]
    exact ih ((startsLine_line n).append (line_ne_nil n) u)

/-- The directives of names keep a place outside block comments. -/
theorem openBehind_append_lines (hu : StartsLine u) (hopen : openBehind u = false) {names : List String}
    (h : ∀ n ∈ names, occurs ['/', '*'] n.toList = false) :
    openBehind (u ++ names.flatMap line) = false := by
  induction names generalizing u with
  | nil => simpa using hopen
  | cons n names ih =>
    rw [List.forall_mem_cons] at h
    rw [List.flatMap_cons, ← List.append_assoc]
    refine ih ((startsLine_line n).append (line_ne_nil n) u) ?_ h.2
    rw [openBehind_append (complete_of_startsLine hu hopen _) (line_ne_nil n), openBehind_line h.1]

/-! ### The place for further directives -/

/-- **Texts that are read alike**: they include the same names, are the same without their directives, and
have the same markers. -/
structure ReadAlike (s t : Text) : Prop where
  includes : includeNames s = includeNames t
  stripped : stripIncludes s = stripIncludes t
  markers : stageMarkers s = stageMarkers t

/-- A text is read like itself. -/
theorem ReadAlike.refl (s : Text) : ReadAlike s s :=
  ⟨rfl, rfl, rfl⟩

/-- A newline behind a directive at the end of a text goes with the directive. -/
theorem stripIncludes_append_newline {s : Text} (hs : s ≠ []) (hend : s.getLast? ≠ some '\n')
    (hlast : ∀ p ∈ (directives s).getLast?, p.2.isSome = true) :
    stripIncludes (s ++ ['\n']) = stripIncludes s := by
  obtain ⟨u, hs', hstarts, hline⟩ := exists_append_lastLine s
  generalize lastLine s = l at hs' hline
  subst hs'
  have hne : l ≠ [] := by
    rintro rfl
    rw [List.append_nil] at hs hend
    exact hend (by rw [List.getLast?_eq_some_getLast hs, hstarts _ (List.getLast?_eq_some_getLast hs)])
  have hname : name? (l ++ ['\n']) = name? l := name?_congr (trim_append_spaces l (by decide))
  have hlines : lines (l ++ ['\n']) = [l ++ ['\n']] := by
    simpa [lines] using lines_append_newline hline []
  rw [directives, lines_append hstarts, directivesFrom_append, lines_of_notMem hne hline,
    directivesFrom, directivesFrom, List.getLast?_concat] at hlast
  rw [List.append_assoc, stripIncludes, stripIncludes, directives, directives, lines_append hstarts,
    lines_append hstarts, directivesFrom_append, directivesFrom_append, hlines,
    lines_of_notMem hne hline, directivesFrom, directivesFrom, hname, directivesFrom, directivesFrom]
  generalize (if (lines u).foldl commentOpenAfter false = true then none else name? l) = read at hlast ⊢
  cases read with
  | none => cases hlast _ rfl
  | some name => simp

/-- **The place where further directives go**: a cut of the text where a line starts outside block comments.
At the end of a text without a newline there, one is added first. -/
theorem exists_cut {s : Text} (hs : ClosesComments s) :
    ∃ a b, StartsLine a ∧ openBehind a = false ∧ ReadAlike (a ++ b) s ∧
      ∀ names, names ≠ [] → insertIncludes names s = a ++ (names.flatMap line ++ b) := by
  obtain ⟨front, back, hsplit, hlast, -, hopen, hinserted⟩ := exists_place hs
  have hlines : IsLines (front.map Prod.fst ++ back.map Prod.fst) := by
    rw [← List.map_append, ← hsplit, directives, map_fst_directivesFrom]
    exact isLines_lines s
  have htext : s = (front.map Prod.fst).flatten ++ (back.map Prod.fst).flatten := by
    rw [← List.flatten_append, ← List.map_append, ← hsplit, directives, map_fst_directivesFrom,
      flatten_lines]
  have hopen' : openBehind ((front.map Prod.fst).map terminate).flatten = false := by
    have hterminated := hlines.of_append.1.terminate_append .nil
    rw [List.append_nil] at hterminated
    rw [← foldl_commentOpenAfter_lines, lines_flatten hterminated, foldl_commentOpenAfter_terminate,
      hopen]
  refine ⟨_, _, ?_, hopen', ?_, hinserted⟩
  · rw [flatten_map_terminate hlines.of_append.1]
    split
    · rename_i hends
      rw [List.append_nil]
      exact startsLine_iff.2 hends
    · exact startsLine_concat _
  · rw [flatten_map_terminate hlines.of_append.1]
    split
    · rw [List.append_nil, ← htext]
      exact .refl s
    · rename_i hends
      -- the last directive ends the text, without a newline
      have hback : back = [] := by
        by_contra hne
        exact hends (startsLine_iff.1 (hlines.startsLine (by simpa using hne)))
      subst hback
      rw [not_or] at hends
      rw [List.append_nil] at hsplit
      rw [List.map_nil, List.flatten_nil, List.append_nil] at htext ⊢
      rw [← htext] at hends ⊢
      exact ⟨includeNames_append_newline s,
        stripIncludes_append_newline hends.1 hends.2 (by rwa [hsplit]), stageMarkers_append_newline s⟩

end Include

open Include

/-- **Inserted directives add their names and nothing else**: the names that the text includes come first,
then the listed ones, each where it comes up first; without its directives the text is the same as
before; and so is its stage, if no name has a character that could start a marker.

**Proof sketch.** All directives are inserted at one place, at the start of a line outside block comments.
Each of them is one line, which is read as the directive of its name and taken out again, and which has
no marker. -/
theorem insertIncludes_adds {s : Text} {names : List String} (hs : StartsNoBlock s)
    (hnames : ∀ n ∈ names, IsListable n) :
    includeNames (insertIncludes names s) = distinct (includeNames s ++ names) ∧
      stripIncludes (insertIncludes names s) = stripIncludes s ∧
      ((∀ n ∈ names, '@' ∉ n.toList ∧ '{' ∉ n.toList) →
        detectStage (insertIncludes names s) = detectStage s) := by
  obtain ⟨a, b, hstarts, hopen, halike, hinserted⟩ := exists_cut hs.closesComments
  have hread : names.filterMap readBack? = names := by
    rw [List.filterMap_congr fun n hn => readBack?_of_isPlain (hnames n hn).plain, List.filterMap_some]
  have hincluded := includeNames_insertIncludes hs.closesComments fun n hn => (hnames n hn).staysOnLine
  rw [hread] at hincluded
  rcases eq_or_ne names [] with rfl | hne
  · exact ⟨hincluded, rfl, fun _ => rfl⟩
  refine ⟨hincluded, ?_, fun hchars => ?_⟩
  · rw [hinserted names hne, stripIncludes_lines hstarts hopen hnames, halike.stripped]
  · rw [detectStage, hinserted names hne,
      stageMarkers_lines hstarts hopen (fun n hn => (hnames n hn).noBlock) hchars, halike.markers,
      detectStage]

/-- A text with directives of each form, some of them in comments, and the last one at its end. -/
def hedge : Text :=
  ("#include <leaf>\r\n/*\n#include <no>\n*/\n@vertex\n  #include \"twig\"\n// #include no\n" ++
    "#include root").toList

/-- Three names are listed for it, one of which it includes already. -/
theorem insertIncludes_adds_hedge :
    StartsNoBlock hedge ∧ (∀ n ∈ ["bud", "leaf", "a//b"], IsListable n) ∧
      includeNames (insertIncludes ["bud", "leaf", "a//b"] hedge) =
        ["leaf", "twig", "root", "bud", "a//b"] ∧
      stripIncludes (insertIncludes ["bud", "leaf", "a//b"] hedge) = stripIncludes hedge ∧
      detectStage (insertIncludes ["bud", "leaf", "a//b"] hedge) = some .vertex := by
  have hs : StartsNoBlock hedge := by decide +kernel
  have hnames : ∀ n ∈ ["bud", "leaf", "a//b"], IsListable n := by decide
  obtain ⟨hincluded, hstripped, hstage⟩ := insertIncludes_adds hs hnames
  refine ⟨hs, hnames, ?_, hstripped, ?_⟩
  · rw [hincluded]
    decide +kernel
  · rw [hstage (by decide)]
    decide +kernel

end ShaderWeave
