import Mathlib.Data.List.DropRight
import ShaderWeave.Proofs.Include.Strictness
import ShaderWeave.Proofs.Text.Lines
import ShaderWeave.Proofs.Text.Occurrence
import ShaderWeave.Proofs.Text.Trim

set_option autoImplicit false

/-!
# Names inserted as directives

The chunks that a configuration lists are asked for by directives, one for each name, which are then
read like all others. So a listed name counts only as far as it is read back from its directive. A
*plain* name is; a name that is empty or has a space in it is not, and its directive stays in the
program as text.

## Main definitions

* `ShaderWeave.Include.isPlain` — a text that is not empty and has no spaces.
* `ShaderWeave.Include.readBack?` — the name that is read from the directive of a name.
* `ShaderWeave.Include.StaysOnLine` — the directive of a name is one line and leaves no comment open.
* `ShaderWeave.Include.ClosesComments` — no directive of a text leaves a comment open.

## Main results

* `ShaderWeave.Include.name?_line` — what is read from the directive of a name.
* `ShaderWeave.Include.directives_insertIncludes` — the directives of a text with further ones.
* `ShaderWeave.Include.includeNames_insertIncludes` — the names that such a text includes.
* `ShaderWeave.Composer.compose_strict_collects` — a strict composition collects the chunks of all
  plain names that are listed.
* `ShaderWeave.Composer.collect_passes_over` — names that are not read back are passed over.
-/

namespace ShaderWeave

open Text Scan

namespace Include

/-! ### The directive of a name -/

/-- **Whether a text is plain**: it is not empty and has no spaces. -/
def isPlain (t : Text) : Bool :=
  t ≠ [] ∧ !t.any isSpace

/-- A text is plain if and only if it has characters, and none of them is a space. -/
theorem isPlain_iff {t : Text} :
    isPlain t = true ↔ t ≠ [] ∧ ∀ c ∈ t, isSpace c = false := by
  simp [isPlain]

/-- A plain text is trimmed. -/
theorem trim_of_isPlain {t : Text} (h : isPlain t = true) : trim t = t := by
  refine trim_eq_self (isTrimmed_iff.2 ⟨fun c hc => ?_, fun c hc => ?_⟩)
  · exact (isPlain_iff.1 h).2 c (List.mem_of_mem_head? hc)
  · exact (isPlain_iff.1 h).2 c (List.mem_of_getLast? hc)

/-- **The name that is read from the directive of a name**: the name without the spaces around it, if
that is plain. -/
def readBack? (name : String) : Option String :=
  if isPlain (trim name.toList) then some (String.ofList (trim name.toList)) else none

/-- A plain name is read back as it is. -/
theorem readBack?_of_isPlain {name : String} (h : isPlain name.toList = true) :
    readBack? name = some name := by
  rw [readBack?, trim_of_isPlain h, if_pos h, String.ofList_toList]

/-- The directive of a name: a keyword, a blank and the name in brackets. -/
theorem line_eq (name : String) :
    line name = ("#include".toList ++ ' ' :: '<' :: (name.toList ++ ['>'])) ++ ['\n'] := by
  have hopen : "#include <".toList = "#include".toList ++ [' ', '<'] := by decide
  unfold line
  rw [hopen]
  generalize "#include".toList = keyword
  simp only [List.append_assoc, List.cons_append, List.nil_append]

/-- The directive of a name without its newline. -/
theorem trim_line (name : String) :
    trim (line name) = "#include".toList ++ ' ' :: '<' :: (name.toList ++ ['>']) := by
  have hkeyword : "#include".toList = '#' :: "include".toList := by decide
  have htrimmed : isTrimmed ("#include".toList ++ ' ' :: '<' :: (name.toList ++ ['>'])) = true := by
    rw [hkeyword]
    generalize "include".toList = u
    have h := isTrimmed_between (c := '#') (d := '>') (by decide) (by decide)
      (u ++ ' ' :: '<' :: name.toList)
    rwa [List.append_assoc] at h
  rw [line_eq, trim_append_spaces _ (by decide), trim_eq_self htrimmed]

/-- **What is read from the directive of a name.** -/
theorem name?_line (name : String) :
    name? (line name) = (readBack? name).map String.toList := by
  have hunwrap : unwrap? (trim (' ' :: '<' :: (name.toList ++ ['>']))) = some name.toList := by
    have h := trim_eq_of_isTrimmed
      (isTrimmed_between (c := '<') (d := '>') (by decide) (by decide) name.toList)
      (u := [' ']) (by decide) (v := []) rfl
    rw [List.append_nil, List.singleton_append] at h
    simp [h, unwrap?, beforeLast?]
  have hblank : (' ' :: '<' :: (name.toList ++ ['>'])).head?.any isBlank = true := by rfl
  rw [name?, trim_line, after?_append, readBack?]
  simp only [Option.bind_eq_bind, Option.bind_some, hblank, hunwrap, guard, Option.map_some]
  generalize trim name.toList = t
  cases h : isPlain t with
  | true =>
    have hplain : t ≠ [] ∧ (!t.any isSpace) = true := of_decide_eq_true h
    rw [if_pos trivial, if_pos hplain, if_pos rfl, Option.map_some, String.toList_ofList]
    rfl
  | false =>
    have hplain : ¬(t ≠ [] ∧ (!t.any isSpace) = true) := of_decide_eq_false h
    rw [if_pos trivial, if_neg hplain, if_neg Bool.false_ne_true]
    rfl

/-! ### Directives line by line -/

/-- **A character at the end of a line** is live or not, and changes nothing before it, if it does not
complete a delimiter. -/
theorem liveLine_concat {e : Char} (hslash : e ≠ '/') (hstar : e ≠ '*') (b : Bool) (l : Text) :
    ∃ x, (x = [] ∨ x = [e]) ∧ liveLine b (l ++ [e]) = ((liveLine b l).1 ++ x, (liveLine b l).2) := by
  have hpair : ∀ {d : Char} {s r : Text}, e ≠ d → (∀ r, s ≠ d :: r) → s ++ [e] ≠ d :: r := by
    rintro d (_ | ⟨c, s⟩) r hd hs h
    · exact hd (List.cons.inj h).1
    · exact hs s (by rw [(List.cons.inj h).1])
  fun_induction liveLine b l with
  | case1 b =>
    cases b with
    | true => exact ⟨[], .inl rfl, liveLine.eq_3 _ _ (by simp)⟩
    | false => exact ⟨[e], .inr rfl, liveLine.eq_6 _ _ (by simp) (by simp)⟩
  | case2 s ih => exact ih
  | case3 c s hc ih =>
    rw [List.cons_append, liveLine.eq_3 _ _ fun r h => hpair hslash fun r => hc r h]
    exact ih
  | case4 => exact ⟨[], .inl rfl, rfl⟩
  | case5 s ih => exact ih
  | case6 c s hline hblock ih =>
    obtain ⟨x, hx, hlive⟩ := ih
    refine ⟨x, hx, ?_⟩
    rw [List.cons_append, liveLine.eq_6 _ _ (fun r h => hpair hslash fun r => hline r h)
      (fun r h => hpair hstar fun r => hblock r h), hlive, List.cons_append]

/-- A character at the end of a line does not matter to the comments that are open behind it, if it
does not complete a delimiter. -/
theorem commentOpenAfter_concat {e : Char} (hslash : e ≠ '/') (hstar : e ≠ '*') (b : Bool) (l : Text) :
    commentOpenAfter b (l ++ [e]) = commentOpenAfter b l := by
  obtain ⟨x, -, hlive⟩ := liveLine_concat hslash hstar b l
  rw [commentOpenAfter, hlive, commentOpenAfter]

/-- A newline at the end of a line does not matter to the comments that are open behind it. -/
theorem commentOpenAfter_append_newline (b : Bool) (l : Text) :
    commentOpenAfter b (l ++ ['\n']) = commentOpenAfter b l :=
  commentOpenAfter_concat (by decide) (by decide) b l

/-- Spaces at the end of a line do not matter to the comments that are open behind it. -/
theorem commentOpenAfter_append_spaces {v : Text} (hv : v.all isSpace = true) (b : Bool) (l : Text) :
    commentOpenAfter b (l ++ v) = commentOpenAfter b l := by
  induction v generalizing l with
  | nil => rw [List.append_nil]
  | cons c v ih =>
    rw [List.all_cons, Bool.and_eq_true] at hv
    rw [← List.singleton_append, ← List.append_assoc, ih hv.2]
    refine commentOpenAfter_concat ?_ ?_ b l
    · rintro rfl
      exact absurd hv.1 (by decide)
    · rintro rfl
      exact absurd hv.1 (by decide)

/-- Spaces at the start of a line do not matter to the comments that are open behind it. -/
theorem commentOpenAfter_spaces_append {w : Text} (hw : w.all isSpace = true) (b : Bool) (l : Text) :
    commentOpenAfter b (w ++ l) = commentOpenAfter b l := by
  induction w with
  | nil => rfl
  | cons c w ih =>
    rw [List.all_cons, Bool.and_eq_true] at hw
    have hslash : c ≠ '/' := by
      rintro rfl
      exact absurd hw.1 (by decide)
    have hstar : c ≠ '*' := by
      rintro rfl
      exact absurd hw.1 (by decide)
    rw [← ih hw.2, commentOpenAfter, List.cons_append, commentOpenAfter]
    cases b with
    | true => rw [liveLine.eq_3 _ _ fun r h => absurd h hstar]
    | false => rw [liveLine.eq_6 _ _ (fun r h => absurd h hslash) fun r h => absurd h hslash]

/-- The trimmed part of a line leaves the same comments open. -/
theorem commentOpenAfter_trim (b : Bool) (l : Text) :
    commentOpenAfter b (trim l) = commentOpenAfter b l := by
  obtain ⟨u, v, hu, hv, hl⟩ := exists_trim l
  conv_rhs => rw [hl]
  rw [commentOpenAfter_spaces_append hu, commentOpenAfter_append_spaces hv]

/-- A newline at the end of a line changes nothing in whether a comment is open behind it. -/
theorem commentOpenAfter_terminate (b : Bool) (l : Text) :
    commentOpenAfter b (terminate l) = commentOpenAfter b l := by
  unfold terminate
  split
  · rfl
  · exact commentOpenAfter_append_newline b l

/-- A newline at the end of a line changes nothing in the name that it includes. -/
theorem name?_terminate (l : Text) : name? (terminate l) = name? l := by
  unfold terminate
  split
  · rfl
  · rw [name?, name?, trim_append_spaces _ (by decide)]

/-- The lines that directives are read from are all there. -/
theorem map_fst_directivesFrom (b : Bool) (ls : List Text) :
    (directivesFrom b ls).map Prod.fst = ls := by
  induction ls generalizing b with
  | nil => rfl
  | cons l ls ih => rw [directivesFrom, List.map_cons, ih]

/-- The directives of lines in two parts are those of the first, and those of the second behind the
comment that the first may leave open. -/
theorem directivesFrom_append (b : Bool) (ls ms : List Text) :
    directivesFrom b (ls ++ ms) =
      directivesFrom b ls ++ directivesFrom (ls.foldl commentOpenAfter b) ms := by
  induction ls generalizing b with
  | nil => rfl
  | cons l ls ih => rw [List.cons_append, directivesFrom, ih, directivesFrom, List.foldl_cons,
      List.cons_append]

/-- The parts of what is read from lines are read from the parts of the lines. -/
theorem directivesFrom_of_eq_append {b : Bool} {ls : List Text}
    {front back : List (Text × Option Text)} (h : directivesFrom b ls = front ++ back) :
    directivesFrom b (front.map Prod.fst) = front ∧
      directivesFrom ((front.map Prod.fst).foldl commentOpenAfter b) (back.map Prod.fst) = back := by
  have hls : ls = front.map Prod.fst ++ back.map Prod.fst := by
    rw [← List.map_append, ← h, map_fst_directivesFrom]
  rw [hls, directivesFrom_append] at h
  refine List.append_inj h ?_
  rw [← List.length_map Prod.fst, map_fst_directivesFrom, List.length_map]

/-- Newlines at the ends of lines do not matter to what the lines include. -/
theorem directivesFrom_terminate (b : Bool) (ls : List Text) :
    directivesFrom b (ls.map terminate) = (directivesFrom b ls).map (Prod.map terminate id) := by
  induction ls generalizing b with
  | nil => rfl
  | cons l ls ih =>
    rw [List.map_cons, directivesFrom, directivesFrom, commentOpenAfter_terminate, name?_terminate,
      ih]
    rfl

/-- Newlines at the ends of lines change nothing in whether a comment is open behind them. -/
theorem foldl_commentOpenAfter_terminate (b : Bool) (ls : List Text) :
    (ls.map terminate).foldl commentOpenAfter b = ls.foldl commentOpenAfter b := by
  induction ls generalizing b with
  | nil => rfl
  | cons l ls ih => rw [List.map_cons, List.foldl_cons, commentOpenAfter_terminate, ih,
      List.foldl_cons]

/-- Behind a directive that leaves no comment open none is open, since a directive is read only where
none is open before it. -/
theorem foldl_commentOpenAfter_of_directive {b : Bool} {ds : List (Text × Option Text)}
    {p : Text × Option Text} (h : directivesFrom b ((ds ++ [p]).map Prod.fst) = ds ++ [p])
    (hp : p.2.isSome = true) (hclosed : commentOpenAfter false p.1 = false) :
    ((ds ++ [p]).map Prod.fst).foldl commentOpenAfter b = false := by
  have hread := (directivesFrom_of_eq_append h).2
  rw [List.map_append, List.foldl_append]
  cases hb : (ds.map Prod.fst).foldl commentOpenAfter b with
  | true =>
    rw [hb, List.map_singleton, directivesFrom, if_pos rfl] at hread
    rw [← (List.cons.inj hread).1] at hp
    cases hp
  | false => exact hclosed

/-! ### A text with further directives -/

/-- **The directive of a name stays on its line**: the name has no newline, and no block comment that
starts in the directive goes on behind it. -/
structure StaysOnLine (name : String) : Prop where
  notMem : '\n' ∉ name.toList
  closed : commentOpenAfter false (line name) = false

/-- **No directive of a text leaves a comment open.** -/
def ClosesComments (s : Text) : Prop :=
  ∀ p ∈ directives s, p.2.isSome = true → commentOpenAfter false p.1 = false

/-- The directives of names are lines. -/
theorem isLines_map_line {names : List String} (h : ∀ n ∈ names, StaysOnLine n)
    {ls : List Text} (hls : IsLines ls) : IsLines (names.map line ++ ls) := by
  induction names with
  | nil => exact hls
  | cons n names ih =>
    have hn := (h n List.mem_cons_self).notMem
    rw [List.map_cons, List.cons_append, line_eq]
    refine .cons ?_ (ih fun m hm => h m (List.mem_cons_of_mem _ hm))
    simp [hn]

/-- Where no comment is open, the directives of names are read, and none is open behind them. -/
theorem directivesFrom_map_line {names : List String} (h : ∀ n ∈ names, StaysOnLine n)
    (ls : List Text) :
    directivesFrom false (names.map line ++ ls) =
      names.map (fun n => (line n, name? (line n))) ++ directivesFrom false ls := by
  induction names with
  | nil => rfl
  | cons n names ih =>
    rw [List.map_cons, List.cons_append, directivesFrom, (h n List.mem_cons_self).closed,
      ih fun m hm => h m (List.mem_cons_of_mem _ hm)]
    rfl

/-- **The place for further directives** is behind the last directive of a text, where no comment is open:
none is open before that directive, and it opens none. -/
theorem exists_place {s : Text} (hs : ClosesComments s) :
    ∃ front back, directives s = front ++ back ∧ (∀ p ∈ front.getLast?, p.2.isSome = true) ∧
      (∀ p ∈ back, p.2 = none) ∧ (front.map Prod.fst).foldl commentOpenAfter false = false ∧
      ∀ names, names ≠ [] → insertIncludes names s =
        ((front.map Prod.fst).map terminate).flatten ++
          (names.flatMap line ++ (back.map Prod.fst).flatten) := by
  let front := (directives s).rdropWhile (·.2.isNone)
  let back := (directives s).rtakeWhile (·.2.isNone)
  have hsplit : directives s = front ++ back := List.rdropWhile_append_rtakeWhile.symm
  have hlast : ∀ p ∈ front.getLast?, p.2.isSome = true := by
    intro p hp
    have hnil : front ≠ [] := List.ne_nil_of_mem (List.mem_of_getLast? hp)
    have h := List.rdropWhile_last_not (·.2.isNone) (directives s) hnil
    rw [List.getLast?_eq_some_getLast hnil, Option.mem_def, Option.some.injEq] at hp
    rw [← hp]
    exact Option.isSome_iff_ne_none.2 fun hnone => h (by rw [hnone]; rfl)
  have hback : ∀ p ∈ back, p.2 = none := by
    intro p hp
    have := List.mem_rtakeWhile_imp (p := fun q : Text × Option Text => q.2.isNone) hp
    exact Option.isNone_iff_eq_none.1 this
  obtain ⟨hread, -⟩ := directivesFrom_of_eq_append hsplit
  have hlines : IsLines (front.map Prod.fst ++ back.map Prod.fst) := by
    rw [← List.map_append, ← hsplit, directives, map_fst_directivesFrom]
    exact isLines_lines s
  refine ⟨front, back, hsplit, hlast, hback, ?_, fun names hne => ?_⟩
  · rcases List.eq_nil_or_concat' front with hnil | ⟨ds, p, hconcat⟩
    · rw [hnil]
      rfl
    · have hp : p.2.isSome = true := hlast p (by rw [hconcat]; simp)
      rw [hconcat] at hread ⊢
      refine foldl_commentOpenAfter_of_directive hread hp (hs p ?_ hp)
      rw [hsplit, hconcat]
      simp
  · rw [flatten_map_terminate hlines.of_append.1]
    simp only [insertIncludes, if_neg hne, ← List.flatMap_def, List.append_assoc]
    rfl

/-- **The directives of a text with further ones.** The lines up to the last directive of the text
stay in front of the further ones, the others behind.

**Proof sketch.** The parts are lines, so they are the lines of the text that they make up. No comment
is open behind the last directive. So the further directives are read, and the lines behind them as
before. -/
theorem directives_insertIncludes {names : List String} {s : Text} (hne : names ≠ [])
    (hs : ClosesComments s) (hn : ∀ n ∈ names, StaysOnLine n) :
    ∃ front back, directives s = front ++ back ∧ (∀ p ∈ front.getLast?, p.2.isSome = true) ∧
      (∀ p ∈ back, p.2 = none) ∧
      directives (insertIncludes names s) =
        front.map (Prod.map terminate id) ++
          (names.map (fun n => (line n, name? (line n))) ++ back) := by
  obtain ⟨front, back, hsplit, hlast, hback, hopen, hinserted⟩ := exists_place hs
  obtain ⟨hread, hreadBack⟩ := directivesFrom_of_eq_append hsplit
  have hlines : IsLines (front.map Prod.fst ++ back.map Prod.fst) := by
    rw [← List.map_append, ← hsplit, directives, map_fst_directivesFrom]
    exact isLines_lines s
  obtain ⟨hfront, hbackLines⟩ := hlines.of_append
  -- the three parts are lines, so cutting the text that they make up gives them back
  have hparts : lines (insertIncludes names s) =
      (front.map Prod.fst).map terminate ++ (names.map line ++ back.map Prod.fst) := by
    rw [← lines_flatten (hfront.terminate_append (isLines_map_line hn hbackLines)), hinserted names hne,
      List.flatten_append, List.flatten_append, List.flatMap_def]
  refine ⟨front, back, hsplit, hlast, hback, ?_⟩
  rw [directives, hparts, directivesFrom_append, directivesFrom_terminate, hread,
    foldl_commentOpenAfter_terminate, hopen, directivesFrom_map_line hn]
  rw [hopen] at hreadBack
  rw [hreadBack]

/-- Dropping repetitions in the first part does not change which names there are, nor their order. -/
theorem distinct_distinct_append (as bs : List String) :
    distinct (distinct as ++ bs) = distinct (as ++ bs) := by
  rw [distinct_append, distinct_append, distinct_of_nodup (nodup_distinct as)]
  simp only [mem_distinct]

/-- **The names that a text with further directives includes**: first its own ones, then those that
are read back from the further directives. -/
theorem includeNames_insertIncludes {names : List String} {s : Text} (hs : ClosesComments s)
    (hn : ∀ n ∈ names, StaysOnLine n) :
    includeNames (insertIncludes names s) =
      distinct (includeNames s ++ names.filterMap readBack?) := by
  rcases eq_or_ne names [] with rfl | hne
  · rw [insertIncludes, if_pos rfl, List.filterMap_nil, List.append_nil]
    exact (distinct_of_nodup (nodup_distinct _)).symm
  · obtain ⟨front, back, hsplit, -, hback, hinserted⟩ := directives_insertIncludes hne hs hn
    let included := fun p : Text × Option Text => p.2.map String.ofList
    have hnone : back.filterMap included = [] :=
      List.filterMap_eq_nil_iff.2 fun p hp => by simp [included, hback p hp]
    have hfront : (front.map (Prod.map terminate id)).filterMap included =
        front.filterMap included := by
      rw [List.filterMap_map]
      rfl
    have hlisted : (names.map fun n => (line n, name? (line n))).filterMap included =
        names.filterMap readBack? := by
      rw [List.filterMap_map]
      refine List.filterMap_congr fun n _ => ?_
      simp [included, name?_line, Function.comp_def]
    have hown : includeNames s = distinct (front.filterMap included) := by
      rw [includeNames, hsplit, List.filterMap_append, hnone, List.append_nil]
    rw [hown, distinct_distinct_append, includeNames, hinserted, List.filterMap_append,
      List.filterMap_append, hfront, hlisted, hnone, List.append_nil]

end Include

namespace Composer

open Include

/-! ### Strict compositions with listed chunks -/

/-- **Names that are not read back are passed over**: what is collected, the error and the notices
are those of the list without them. -/
theorem collect_passes_over (composer : Composer) (flags : Flags) (names : List String)
    (template : Text) (htemplate : ClosesComments (expandConditionals flags template))
    (hnames : ∀ n ∈ names, StaysOnLine n) :
    composer.scope.collect composer.strict composer.shader (prepared flags names template) =
      composer.scope.collect composer.strict composer.shader
        (prepared flags (names.filter fun n => (readBack? n).isSome) template) := by
  have hread : (names.filter fun n => (readBack? n).isSome).filterMap readBack? =
      names.filterMap readBack? := by
    rw [List.filterMap_filter]
    refine List.filterMap_congr fun n _ => ?_
    cases readBack? n <;> rfl
  have hincluded : includeNames (prepared flags names template) =
      includeNames (prepared flags (names.filter fun n => (readBack? n).isSome) template) := by
    rw [prepared, prepared, includeNames_insertIncludes htemplate hnames,
      includeNames_insertIncludes htemplate fun n hn => hnames n (List.mem_filter.1 hn).1, hread]
  rw [Scope.collect, hincluded]
  rfl

/-- **A strict composition collects the chunks of all plain names that are listed.** Every name that
is read back from its directive has a chunk, which is among the collected ones and has no defect; a
plain name is read back as it is.

**Proof sketch.** The names that are read back are among those that the prepared text includes, and so
among the visited ones. As the walk along these does not end in an error, each of them is accepted and
its chunk collected. -/
theorem compose_strict_collects (composer : Composer) (flags : Flags) (names : List String)
    (template : Text) (bindings : BindingSet) {program : Text}
    (hstrict : composer.strict = true)
    (hok : (composer.compose flags names template bindings).value.1 = .ok program)
    (htemplate : ClosesComments (expandConditionals flags template))
    (hnames : ∀ n ∈ names, StaysOnLine n) :
    ∃ chunks,
      (composer.scope.collect true composer.shader (prepared flags names template)).value =
        .ok chunks ∧
      program = (composer.composeWith flags names template bindings chunks).1 ∧
      (∀ n ∈ names, ∀ m, readBack? n = some m →
        ∃ c ∈ chunks, composer.scope.find? m = some c ∧ c.defects = []) ∧
      ∀ n ∈ names, isPlain n.toList = true →
        ∃ c ∈ chunks, composer.scope.find? n = some c ∧ c.defects = [] := by
  rw [value_compose, hstrict] at hok
  cases hcollect : (composer.scope.collect true composer.shader
      (prepared flags names template)).value with
  | error e =>
    rw [hcollect] at hok
    cases hok
  | ok chunks =>
    rw [hcollect] at hok
    have hwalk := hcollect
    rw [Scope.collect_strict_eq] at hwalk
    obtain ⟨haccepts, hchunks⟩ := Scope.gatherFrom_eq_ok hwalk
    have hread : ∀ n ∈ names, ∀ m, readBack? n = some m →
        ∃ c ∈ chunks, composer.scope.find? m = some c ∧ c.defects = [] := by
      intro n hn m hm
      have hincluded : m ∈ includeNames (prepared flags names template) := by
        rw [prepared, includeNames_insertIncludes htemplate hnames, mem_distinct]
        exact List.mem_append_right _ (List.mem_filterMap.2 ⟨n, hn, hm⟩)
      have hvisited : m ∈ composer.scope.visited (prepared flags names template) :=
        ((composer.scope.isDiscovery_visited _).mem_iff m).2
          (.root (mem_includeNames_iff.1 hincluded))
      obtain ⟨c, hfind, hdefects⟩ := haccepts m hvisited
      exact ⟨c, hchunks ▸ List.mem_filterMap.2 ⟨m, hvisited, hfind⟩, hfind, hdefects⟩
    refine ⟨chunks, rfl, (Except.ok.inj hok).symm, hread, ?_⟩
    exact fun n hn hplain => hread n hn n (readBack?_of_isPlain hplain)

/-- A strict composer with one chunk and an empty library. -/
def tinting : Composer :=
  ⟨⟨[.ofTemplate "tint" "@fragment \x7b\x7b tint(); \x7d\x7d"], Table.empty⟩, Table.empty, true,
    anonymous⟩

/-- The program of a template to which the chunk is added. -/
theorem compose_strict_collects_tint :
    (∃ program, (tinting.compose Table.empty ["tint"] "\x7b\x7bfragment\x7d\x7d".toList
        .empty).value.1 = .ok program ∧ occurs "tint();".toList program = true) ∧
      ClosesComments (expandConditionals Table.empty "\x7b\x7bfragment\x7d\x7d".toList) ∧
      (∀ n ∈ ["tint"], StaysOnLine n) ∧
      ∃ c, tinting.scope.find? "tint" = some c ∧ c.defects = [] := by
  have hbuilt : (match (tinting.compose Table.empty ["tint"]
        "\x7b\x7bfragment\x7d\x7d".toList .empty).value.1 with
      | .ok program => occurs "tint();".toList program
      | .error _ => false) = true := by
    decide +kernel
  have hcloses :
      ClosesComments (expandConditionals Table.empty "\x7b\x7bfragment\x7d\x7d".toList) := by
    have h : ((directives (expandConditionals Table.empty
        "\x7b\x7bfragment\x7d\x7d".toList)).all fun p => p.2.isNone) = true := by
      decide +kernel
    intro p hp hsome
    have := List.all_eq_true.1 h p hp
    simp_all
  have hstays : ∀ n ∈ ["tint"], StaysOnLine n := by
    intro n hn
    rw [List.mem_singleton.1 hn]
    exact ⟨by decide, by decide +kernel⟩
  cases hprogram : (tinting.compose Table.empty ["tint"] "\x7b\x7bfragment\x7d\x7d".toList
      .empty).value.1 with
  | error e =>
    rw [hprogram] at hbuilt
    cases hbuilt
  | ok program =>
    rw [hprogram] at hbuilt
    obtain ⟨chunks, -, -, -, hplain⟩ := compose_strict_collects tinting Table.empty ["tint"]
      "\x7b\x7bfragment\x7d\x7d".toList .empty rfl hprogram hcloses hstays
    obtain ⟨c, -, hc⟩ := hplain "tint" (by simp) (by decide)
    exact ⟨⟨program, rfl, hbuilt⟩, hcloses, hstays, c, hc⟩

/-- **A strict composition does not notice a listed name with a space**: it succeeds although the name
has no chunk, and leaves the directive in the program. -/
theorem compose_strict_passes_over :
    (tinting.compose Table.empty ["no such"] ['x'] .empty).value.1 =
        .ok "#include <no such>\nx".toList ∧
      tinting.scope.find? "no such" = none := by
  decide +kernel

end Composer

end ShaderWeave
