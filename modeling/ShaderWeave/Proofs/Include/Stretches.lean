import ShaderWeave.Proofs.Include.Place

set_option autoImplicit false

/-!
# Texts cut into stretches

A text with directives is made of stretches: directives, each a whole line, and texts in between that
start no directive, whatever follows them. What is taken out of such a text are its directives, and the
names that it includes are theirs. The spaces at the ends of a text matter to neither.

## Main definitions

* `ShaderWeave.Include.NoLineStarts` — no line of a text starts in a given way.
* `ShaderWeave.Include.IsQuiet` — a text that starts no directive.
* `ShaderWeave.Include.IsDirective` — a line that is a directive.
* `ShaderWeave.Include.Placed` — stretches whose directives stand where lines start.

## Main results

* `ShaderWeave.Include.directives_stretches` — the directives of a text that is made of stretches.
* `ShaderWeave.Include.exists_stripIncludes_trim` — directives are taken out of a text as they are
  without the spaces at its ends.
-/

namespace ShaderWeave

open Text Scan

namespace Include

variable {start : Text → Prop} {word u v : Text} {live : Bool}

/-! ### The starts of lines -/

/-- **No line of a text starts in a given way**, spaces aside, whatever follows the text. If only live
lines count, those that start inside a block comment do not. -/
def NoLineStarts (live : Bool) (start : Text → Prop) (s : Text) : Prop :=
  ∀ x p y z, s = x ++ (p ++ y) → StartsLine x → (live = true → openBehind x = false) →
    p.all isSpace = true → y ≠ [] → ¬start (y ++ z)

/-- A word that does not occur does not start a line. -/
theorem noLineStarts_of_isClearOf (h : isClearOf word u = true) :
    NoLineStarts live (word <+: ·) u := by
  rintro x p y z rfl - - - hy
  exact after?_eq_none_iff.1
    (after?_append_of_isClearOf (isClearOf_of_append (isClearOf_of_append h)) hy z)

/-- **Lines of texts one behind the other** start so in neither of them, and not where they meet. -/
theorem NoLineStarts.append (hu : NoLineStarts live start u) (hv : NoLineStarts live start v)
    (hcomplete : live = true → Complete u) : NoLineStarts live start (u ++ v) := by
  intro x p y z h hx hopen hp hy
  rw [← List.append_assoc] at h
  rcases List.append_eq_append_iff.1 h with ⟨a, ha, rfl⟩ | ⟨c, rfl, rfl⟩
  · rcases List.append_eq_append_iff.1 ha with ⟨q, rfl, rfl⟩ | ⟨q, rfl, rfl⟩
    · rw [List.all_append, Bool.and_eq_true] at hp
      exact hv [] a y z (by simp) startsLine_nil (fun _ => openBehind_nil) hp.2 hy
    · refine hv q p y z (by simp) hx.of_append (fun hlive => ?_) hp hy
      rcases eq_or_ne q [] with rfl | hne
      · exact openBehind_nil
      · rw [← openBehind_append (hcomplete hlive q) hne, hopen hlive]
  · rcases eq_or_ne c [] with rfl | hne
    · exact hv [] [] v z rfl startsLine_nil (fun _ => openBehind_nil) rfl hy
    · rw [List.append_assoc]
      exact hu x p c (v ++ z) (by simp) hx hopen hp hne

/-- **A comment starts no directive**: behind its start it is open, up to its end or to the end of its
line. -/
theorem noLineStarts_closedComment {d : Char} (c : ClosedComment) (hd : d ≠ '/') :
    NoLineStarts true (d :: word <+: ·) c.text := by
  intro x p y z h hx hopen hp hy
  rcases eq_or_ne x [] with rfl | hne
  · -- the comment itself does not start with the word
    have hp : p = [] := by
      cases c <;> exact eq_nil_of_cons_eq_append (by decide) hp h
    subst hp
    rw [List.nil_append, List.nil_append] at h
    rw [← h]
    rintro ⟨r, hr⟩
    cases c <;> exact hd (List.cons.inj hr).1
  · exfalso
    obtain ⟨x, e, rfl⟩ := (List.eq_nil_or_concat x).resolve_left hne
    obtain ⟨y, f, rfl⟩ := (List.eq_nil_or_concat y).resolve_left hy
    obtain rfl : e = '\n' := hx e (by simp)
    cases c with
    | line content hline =>
      have h' : '/' :: '/' :: content ++ ['\n'] = (x ++ ['\n'] ++ (p ++ y)) ++ [f] := by
        simpa [ClosedComment.text] using h
      have hmem : '\n' ∈ '/' :: '/' :: content := by
        rw [(List.append_inj' h' rfl).1]
        simp
      simp [hline] at hmem
    | block content hcontent =>
      have h' : '/' :: '*' :: (content ++ ['*']) ++ ['/'] = (x ++ ['\n'] ++ (p ++ y)) ++ [f] := by
        simpa [ClosedComment.text] using h
      have hfront := (List.append_inj' h' rfl).1
      rcases x with _ | ⟨a, _ | ⟨b, x⟩⟩
      · cases hfront
      · cases hfront
      · simp only [List.cons_append, List.cons.injEq] at hfront
        obtain ⟨rfl, rfl, hfront⟩ := hfront
        have hunended : occurs ['*', '/'] (x ++ ['\n']) = false := by
          rw [← Bool.not_eq_true, occurs_iff_infix] at hcontent ⊢
          rintro ⟨k, l, hkl⟩
          refine hcontent ?_
          have hcontent : content ++ ['*'] = k ++ ['*', '/'] ++ (l ++ (p ++ y)) := by
            rw [← List.append_assoc, hkl]
            exact hfront
          generalize l ++ (p ++ y) = r at hcontent
          rcases List.eq_nil_or_concat r with rfl | ⟨r, g, rfl⟩
          · have := congrArg List.getLast? hcontent
            simp at this
          · rw [List.concat_eq_append, ← List.append_assoc] at hcontent
            exact ⟨k, r, (List.append_inj' hcontent rfl).1.symm⟩
        have := openFrom_true_of_unended hunended
        rw [openFrom, if_pos rfl] at this
        have hopen := hopen rfl
        simp only [List.concat_eq_append, List.cons_append] at hopen
        rw [hopen] at this
        cases this

/-! ### Directives and the texts in between -/

/-- The word that directives start with. -/
def keyword : Text :=
  ['#', 'i', 'n', 'c', 'l', 'u', 'd', 'e']

/-- **A text that starts no directive**, whatever follows it. -/
structure IsQuiet (u : Text) : Prop where
  complete : Complete u
  noLineStarts : NoLineStarts true (keyword <+: ·) u

/-- **A line that is a directive** for a name, with its newline. -/
structure IsDirective (l name : Text) : Prop where
  isLine : ∃ w, l = w ++ ['\n'] ∧ '\n' ∉ w
  closed : commentOpenAfter false l = false
  includes : name? l = some name

/-- Texts in a row of which neither starts a directive start none. -/
theorem IsQuiet.append (hu : IsQuiet u) (hv : IsQuiet v) : IsQuiet (u ++ v) :=
  ⟨hu.complete.append hv.complete, hu.noLineStarts.append hv.noLineStarts fun _ => hu.complete⟩

/-- The empty text starts no directive. -/
theorem isQuiet_nil : IsQuiet [] :=
  ⟨complete_nil, noLineStarts_of_isClearOf (by decide)⟩

/-- A text without comments and without the word starts no directive. -/
theorem isQuiet_of_isClearOf (hu : isUncommented u = true) (hi : isClearOf keyword u = true) :
    IsQuiet u :=
  ⟨complete_of_isUncommented hu, noLineStarts_of_isClearOf hi⟩

/-- A closed comment starts no directive. -/
theorem isQuiet_closedComment (c : ClosedComment) : IsQuiet c.text :=
  ⟨complete_closed c, noLineStarts_closedComment c (by decide)⟩

/-- Spaces start no directive. -/
theorem isQuiet_of_all_isSpace (hu : u.all isSpace = true) : IsQuiet u :=
  isQuiet_of_isClearOf (isUncommented_of_all_isSpace hu)
    (isClearOf_of_notMem (notMem_of_all_isSpace hu (by decide)))

/-- A directive has the word behind its spaces. -/
theorem exists_of_name? {l name : Text} (h : name? l = some name) :
    ∃ r, trim l = keyword ++ r := by
  rw [name?] at h
  cases hr : after? "#include".toList (trim l) with
  | none =>
    rw [hr] at h
    cases h
  | some r => exact ⟨r, after?_eq_some_iff.1 hr⟩

/-- **No line of a quiet text is a directive.** -/
theorem IsQuiet.directives_eq (h : IsQuiet u) : directives u = (lines u).map fun l => (l, none) := by
  have hnone : ∀ p ∈ directives u, p.2 = none := by
    rintro ⟨l, name⟩ hp
    rcases name with _ | name
    · rfl
    exfalso
    obtain ⟨before, line, after, hlines, hopen, hname⟩ := mem_directivesFrom_iff.1 ⟨l, hp⟩
    have hlive : IsLive u (.ofList name) :=
      ⟨before, line, after, hlines, hopen, by rw [hname, String.toList_ofList]⟩
    obtain ⟨x, w, y, hu, hbetween⟩ := isLive_iff.1 hlive
    obtain ⟨r, hr⟩ := exists_of_name? hbetween.includes
    obtain ⟨a, b, ha, -, hw⟩ := exists_trim w
    refine h.noLineStarts x a (trim w ++ (b ++ y)) [] ?_ hbetween.starts
      (fun _ => hbetween.outside) ha ?_ ?_
    · rw [hu]
      conv_lhs => rw [hw]
      simp only [List.append_assoc]
    · rw [hr, List.append_assoc]
      exact List.append_ne_nil_of_left_ne_nil (by decide) _
    · rw [hr, List.append_nil, List.append_assoc]
      exact List.prefix_append _ _
  calc directives u = (directives u).map fun p => (p.1, none) := by
        conv_lhs => rw [← List.map_id (directives u)]
        refine List.map_congr_left fun p hp => ?_
        rw [id, ← hnone p hp]
    _ = (lines u).map fun l => (l, none) := by
        rw [← map_fst_directivesFrom false (lines u), List.map_map]
        rfl

/-- No block comment is open behind a complete text. -/
theorem openBehind_of_complete (h : Complete u) : openBehind u = false := by
  rw [openBehind]
  rcases hl : (lexemes u).getLast? with _ | l
  · rfl
  cases l with
  | live c => rfl
  | comment t =>
    obtain ⟨c, rfl⟩ := h.commentsClosed t (List.mem_of_getLast? hl)
    exact isOpen_closed c

/-- **The directives of texts put together** where a line starts outside block comments. -/
theorem directives_append (hu : StartsLine u) (hopen : openBehind u = false) (v : Text) :
    directives (u ++ v) = directives u ++ directives v := by
  rw [directives, lines_append hu, directivesFrom_append, foldl_commentOpenAfter_lines, hopen]
  rfl

/-- **The directives behind a quiet text** that ends in front of a line. -/
theorem IsQuiet.directives_append (h : IsQuiet u) (hline : StartsLine u) (s : Text) :
    directives (u ++ s) = (lines u).map (fun l => (l, none)) ++ directives s := by
  rw [Include.directives_append hline (openBehind_of_complete h.complete), h.directives_eq]

/-- A directive in front of a text. -/
theorem IsDirective.directives_append {l name : Text} (h : IsDirective l name) (s : Text) :
    directives (l ++ s) = (l, some name) :: directives s := by
  obtain ⟨w, rfl, hw⟩ := h.isLine
  rw [directives, List.append_assoc, List.singleton_append, lines_append_newline hw,
    directivesFrom, h.closed, h.includes]
  rfl

/-! ### Texts that are made of stretches -/

/-- Whether a line starts behind a text, given whether one starts in front of it. -/
def lineAfter (b : Bool) (u : Text) : Bool :=
  (u.getLast?.map (decide <| · = '\n')).getD b

/-- **A stretch**: a directive with the name that it includes, or a text that starts no directive. -/
def IsStretch : Text × Option Text → Prop
  | (u, none) => IsQuiet u
  | (l, some name) => IsDirective l name

/-- **Stretches whose directives stand where lines start**, given whether a line starts in front of
them. -/
def Placed : Bool → List (Text × Option Text) → Prop
  | _, [] => True
  | b, (u, name?) :: ls => (name?.isSome = true → b = true) ∧ Placed (lineAfter b u) ls

/-- Whether a line starts behind two texts in a row is known behind the first one and then the second. -/
theorem lineAfter_append (b : Bool) (u v : Text) :
    lineAfter b (u ++ v) = lineAfter (lineAfter b u) v := by
  rcases eq_or_ne v [] with rfl | hne
  · rw [List.append_nil]
    rfl
  · rw [lineAfter, lineAfter, List.getLast?_append_of_ne_nil _ hne, List.getLast?_eq_some_getLast hne]
    rfl

/-- A line starts behind a text if one starts behind its last part. -/
theorem startsLine_append_of_lineAfter {b : Bool} {u v : Text} (hb : b = true → StartsLine u)
    (h : lineAfter b v = true) : StartsLine (u ++ v) := by
  rcases eq_or_ne v [] with rfl | hne
  · rw [List.append_nil]
    exact hb h
  · refine StartsLine.append (fun c hc => ?_) hne u
    rw [lineAfter, Option.mem_def.1 hc] at h
    simpa using h

/-- No line starts behind a character that is no newline. -/
theorem lineAfter_concat (b : Bool) (u : Text) (c : Char) :
    lineAfter b (u ++ [c]) = decide (c = '\n') := by
  simp [lineAfter]

/-- Directives of two lists of stretches stand where lines start if those of each do. -/
theorem placed_append {b : Bool} {ls ms : List (Text × Option Text)} :
    Placed b (ls ++ ms) ↔ Placed b ls ∧ Placed (lineAfter b (ls.flatMap Prod.fst)) ms := by
  induction ls generalizing b with
  | nil => simp [Placed, lineAfter]
  | cons p ls ih =>
    obtain ⟨u, name⟩ := p
    simp only [List.cons_append, Placed, ih, List.flatMap_cons, lineAfter_append, and_assoc]

/-- A line starts behind a text, if one starts in front of it, where one would not need to. -/
theorem lineAfter_mono {b c : Bool} (hbc : b = true → c = true) {u : Text}
    (h : lineAfter b u = true) : lineAfter c u = true := by
  revert h
  rw [lineAfter, lineAfter]
  cases u.getLast? with
  | none => exact hbc
  | some d => exact id

/-- Stretches may stand where a line starts if they may stand elsewhere. -/
theorem Placed.mono {b c : Bool} {ls : List (Text × Option Text)} (h : Placed b ls)
    (hbc : b = true → c = true) : Placed c ls := by
  induction ls generalizing b c with
  | nil => trivial
  | cons p ls ih =>
    obtain ⟨u, name⟩ := p
    exact ⟨fun hname => hbc (h.1 hname), ih h.2 (lineAfter_mono hbc)⟩

/-- What is left of lines that are no directives. -/
theorem flatMap_filter_map_none (ls : List Text) :
    ((ls.map fun l => (l, (none : Option Text))).filter (·.2.isNone)).flatMap Prod.fst =
      ls.flatten := by
  rw [List.filter_eq_self.2 (by simp), List.flatMap_map]
  simp [List.flatMap_id']

/-- **The directives of a text that is made of stretches**, with a quiet text in front: what is taken out
are the stretches that are directives.

**Proof sketch.** Induction on the stretches. One that is no directive is added to the quiet text; behind
one that is, a new line starts. -/
theorem directives_stretches {u : Text} {ls : List (Text × Option Text)} {b : Bool} (hu : IsQuiet u)
    (hb : b = true → StartsLine u) (hstretch : ∀ p ∈ ls, IsStretch p) (hplaced : Placed b ls) :
    stripIncludes (u ++ ls.flatMap Prod.fst) =
        u ++ (ls.filter (·.2.isNone)).flatMap Prod.fst ∧
      (directives (u ++ ls.flatMap Prod.fst)).filterMap Prod.snd = ls.filterMap Prod.snd := by
  have hnames : ∀ ms : List Text,
      (ms.map fun l => (l, (none : Option Text))).filterMap Prod.snd = [] := fun ms => by
    simp [List.filterMap_map]
  have htext : ∀ v : Text, ((((lines v).map fun l => (l, (none : Option Text))).filter
      (·.2.isNone)).flatMap Prod.fst) = v := fun v => by
    rw [flatMap_filter_map_none, flatten_lines]
  induction ls generalizing u b with
  | nil =>
    rw [List.flatMap_nil, List.append_nil, stripIncludes, hu.directives_eq]
    exact ⟨by simp [htext], hnames _⟩
  | cons p ls ih =>
    obtain ⟨v, name⟩ := p
    have hrest := fun q hq => hstretch q (List.mem_cons_of_mem _ hq)
    have hfirst := hstretch _ List.mem_cons_self
    rcases name with _ | name
    · have := ih (IsQuiet.append hu hfirst) (startsLine_append_of_lineAfter hb) hrest hplaced.2
      simpa [List.flatMap_cons] using this
    · have hl : IsDirective v name := hfirst
      obtain ⟨w, hw, -⟩ := hl.isLine
      have hstart : lineAfter b v = true → StartsLine [] := fun _ => startsLine_nil
      obtain ⟨hstrip, hincludes⟩ := ih isQuiet_nil hstart hrest hplaced.2
      have hdirectives : directives (u ++ (v ++ ls.flatMap Prod.fst)) =
          (lines u).map (fun l => (l, none)) ++ (v, some name) :: directives (ls.flatMap Prod.fst) := by
        rw [hu.directives_append (hb (hplaced.1 rfl)), hl.directives_append]
      rw [List.flatMap_cons, hdirectives]
      rw [List.nil_append] at hstrip hincludes
      constructor
      · rw [stripIncludes, hdirectives, List.filter_append, List.flatMap_append, htext]
        rw [stripIncludes] at hstrip
        simpa using hstrip
      · rw [List.filterMap_append, hnames]
        simpa using hincludes

/-! ### Spaces at the ends of a text -/

/-- The lines of a text with a part of a line in front. -/
theorem lines_append_of_notMem {w s l : Text} {ls : List Text} (hw : '\n' ∉ w)
    (h : lines s = l :: ls) : lines (w ++ s) = (w ++ l) :: ls := by
  induction w with
  | nil => exact h
  | cons c w ih =>
    rw [List.mem_cons, not_or] at hw
    rw [List.cons_append, lines, if_neg (Ne.symm hw.1), ih hw.2]
    rfl

/-- Lines of spaces are no directives. -/
theorem directivesFrom_of_all_isSpace {ls : List Text} (h : ls.flatten.all isSpace = true) (b : Bool) :
    directivesFrom b ls = ls.map fun l => (l, none) := by
  induction ls generalizing b with
  | nil => rfl
  | cons l ls ih =>
    rw [List.flatten_cons, List.all_append, Bool.and_eq_true] at h
    have hname : name? l = none := by
      rw [name?_congr (w := []) (by rw [trim_eq_nil_iff.2 h.1]; rfl), name?_nil]
    rw [directivesFrom, ih h.2, hname]
    cases b <;> rfl

/-- Spaces in front of a text. -/
theorem exists_stripIncludes_spaces_append {u : Text} (hu : u.all isSpace = true) (s : Text) :
    ∃ a, a.all isSpace = true ∧ stripIncludes (u ++ s) = a ++ stripIncludes s := by
  obtain ⟨x, hx, hstarts, hlast⟩ := exists_append_lastLine u
  generalize lastLine u = w at hx hlast
  subst hx
  rw [List.all_append, Bool.and_eq_true] at hu
  have hx := isQuiet_of_all_isSpace hu.1
  cases hlines : lines s with
  | nil =>
    have hs : s = [] := by rw [← flatten_lines s, hlines]; rfl
    have hxw := (hx.append (isQuiet_of_all_isSpace hu.2)).directives_eq
    refine ⟨x ++ w, by simp [hu.1, hu.2], ?_⟩
    rw [hs, List.append_nil, stripIncludes, hxw, flatMap_filter_map_none, flatten_lines]
    exact (List.append_nil _).symm
  | cons l ls =>
    have hname : name? (w ++ l) = name? l := name?_congr (by rw [trim, trimStart_append hu.2, trim])
    rw [List.append_assoc, stripIncludes, hx.directives_append hstarts, List.filter_append,
      List.flatMap_append, flatMap_filter_map_none, flatten_lines, stripIncludes, directives,
      directives, lines_append_of_notMem hlast hlines, hlines, directivesFrom, directivesFrom, hname,
      commentOpenAfter_spaces_append hu.2]
    cases name? l with
    | none => exact ⟨x ++ w, by simp [hu.1, hu.2], by simp⟩
    | some name => exact ⟨x, hu.1, by simp⟩

/-- Spaces behind a text. -/
theorem exists_stripIncludes_append_spaces {v : Text} (hv : v.all isSpace = true) (s : Text) :
    ∃ b, b.all isSpace = true ∧ stripIncludes (s ++ v) = stripIncludes s ++ b := by
  obtain ⟨u, hu, hstarts, hlast⟩ := exists_append_lastLine s
  generalize lastLine s = w at hu hlast
  subst hu
  have hbehind : ∀ ms : List Text, ms.flatten.all isSpace = true → ∀ c,
      ((directivesFrom c ms).filter (·.2.isNone)).flatMap Prod.fst = ms.flatten := by
    intro ms hms c
    rw [directivesFrom_of_all_isSpace hms, flatMap_filter_map_none]
  rw [List.append_assoc, stripIncludes, stripIncludes, directives, directives, lines_append hstarts,
    lines_append hstarts, directivesFrom_append, directivesFrom_append, List.filter_append,
    List.filter_append, List.flatMap_append, List.flatMap_append]
  generalize (lines u).foldl commentOpenAfter false = c
  rcases eq_or_ne w [] with rfl | hne
  · refine ⟨v, hv, ?_⟩
    have := hbehind (lines v) (by rwa [flatten_lines]) c
    rw [List.nil_append, this, flatten_lines]
    simp [lines, directivesFrom]
  · obtain ⟨x, ms, hlines, hxms⟩ : ∃ x ms, lines (w ++ v) = (w ++ x) :: ms ∧ x ++ ms.flatten = v := by
      cases hlines : lines v with
      | nil =>
        have : v = [] := by rw [← flatten_lines v, hlines]; rfl
        exact ⟨[], [], by rw [this, List.append_nil, lines_of_notMem hne hlast], by rw [this]; rfl⟩
      | cons l ls =>
        exact ⟨l, ls, lines_append_of_notMem hlast hlines, by
          rw [← List.flatten_cons, ← hlines, flatten_lines]⟩
    have hname : name? (w ++ x) = name? w := by
      refine name?_congr (trim_append_spaces w ?_)
      rw [← hxms, List.all_append, Bool.and_eq_true] at hv
      exact hv.1
    rw [← hxms, List.all_append, Bool.and_eq_true] at hv
    rw [hlines, lines_of_notMem hne hlast, directivesFrom, directivesFrom, hname]
    simp only [List.filter_cons, directivesFrom]
    cases hdirective : (if c = true then none else name? w : Option Text) with
    | none => exact ⟨x ++ ms.flatten, by simp [hv.1, hv.2], by simp [hbehind ms hv.2]⟩
    | some name => exact ⟨ms.flatten, hv.2, by simp [hbehind ms hv.2]⟩

/-- **Directives are taken out of a text as they are without the spaces at its ends**; what is left
differs by spaces at its ends only. -/
theorem exists_stripIncludes_trim (s : Text) :
    ∃ a b, a.all isSpace = true ∧ b.all isSpace = true ∧
      stripIncludes s = a ++ (stripIncludes (trim s) ++ b) := by
  obtain ⟨u, v, hu, hv, hs⟩ := exists_trim s
  obtain ⟨a, ha, hfront⟩ := exists_stripIncludes_spaces_append hu (trim s ++ v)
  obtain ⟨b, hb, hback⟩ := exists_stripIncludes_append_spaces hv (trim s)
  exact ⟨a, b, ha, hb, by rw [← hback, ← hfront, ← hs]⟩

end Include

end ShaderWeave
