import ShaderWeave.Marker
import ShaderWeave.Proofs.Bytewise.Scan
import ShaderWeave.Proofs.Scan.Pieces

set_option autoImplicit false

/-!
# Stage markers in bytes

The search for the stage of a template, and the expansion of entry markers, for a program that holds bytes.
An entry marker is read along parts of its line that are texts of their own, with offsets into each.

## Main definitions

* `ShaderWeave.Bytewise.detectStage` — the stage that a template is for.
* `ShaderWeave.Bytewise.parseEntryMarker` — the entry marker that a line consists of.
* `ShaderWeave.Bytewise.expandEntries` — a text with its entry markers written out.

## Main results

* `ShaderWeave.Bytewise.detectStage_utf8`, `ShaderWeave.Bytewise.expandEntries_utf8` — nothing goes wrong
  in either, and they come to what they do for texts.
-/

namespace ShaderWeave

namespace Bytewise

open Text Bytes Scan

variable {S s r : Text}

/-! ### The stage of a template -/

/-- The stage that a word names. -/
def readStage (word : Bytes) : Reading Stage := do
  let name ← liftM (text word)
  OptionT.mk (pure (Stage.ofName? name))

/-- The stage of the marker at an offset. -/
def readMarker (src : Bytes) (i : Nat) : Reading Stage := do
  guard (src[i]? = some (ascii '@'))
  let (word, _) ← readWord src (i + 1)
  readStage word

/-- The stage of the placeholder at an offset. -/
def readPlaceholder (src : Bytes) (i : Nat) : Reading Stage := do
  let rest ← liftM (bytesFrom src i)
  guard ((utf8 ['{', '{']).isPrefixOf rest)
  let (word, stop) ← readWord src (i + 2)
  let _ ← readPrefix ['}', '}'] src stop
  readStage word

/-- One turn of the search for the stage of a template. -/
def stageStep (src : Bytes) (i : Nat) (_ : UInt8) (_ : Unit) : Guarded (Step Unit (Option Stage)) := do
  match ← (readMarker src i).run with
  | some stage => return .done (some stage)
  | none =>
    match ← (readPlaceholder src i).run with
    | some stage => return .done (some stage)
    | none => return .next (i + 1) ()

/-- **The stage that a template is for.** -/
def detectStage (src : Bytes) : Guarded (Option Stage) :=
  scan src (stageStep src) (fun _ => .ok none) 0 ()

/-! ### Entry markers -/

/-- **The entry marker that a line consists of**: its stage and its two names. -/
def parseEntryMarker (line : Bytes) : Reading (Stage × Bytes × Bytes) := do
  let line ← liftM (text line)
  let rest ← OptionT.mk (pure (after? ['@'] (trim line)))
  let rest := utf8 rest
  let (word, i) ← readWord rest 0
  let stage ← readStage word
  let (input, i) ← readParens rest (skipBlanks rest i)
  let rest ← liftM (sliceFrom rest i)
  let rest ← liftM (text rest)
  let rest ← OptionT.mk (pure (after? ['-', '>'] (trimStart rest)))
  let rest := utf8 (trimStart rest)
  let (output, i) ← readWord rest 0
  let rest ← liftM (sliceFrom rest i)
  let rest ← liftM (text rest)
  guard (trim rest = ['{'])
  let (_, stop) ← readWord input 0
  guard (stop = input.length)
  return (stage, input, output)

/-- A line, with its entry marker written out if it is one. -/
def expandLine (line : Bytes) : Guarded Bytes := do
  match ← (parseEntryMarker line).run with
  | none => return line
  | some (stage, input, output) =>
    let l ← text line
    let stop ← difference line.length (utf8 (trimStart l)).length
    let indent ← slice line 0 stop
    let indent ← text indent
    let input ← text input
    let output ← text output
    return utf8 (EntryMarker.head ⟨stage, input, output⟩ indent)
      ++ if l.getLast? = some '\n' then [ascii '\n'] else []

/-- **A text with its entry markers written out.** -/
def expandEntries (src : Bytes) : Guarded Bytes := do
  let s ← text src
  let lines ← (lines s).mapM fun line => expandLine (utf8 line)
  return lines.flatten

/-! ### Markers and placeholders at a place -/

/-- A word in bytes names the stage that the word names. -/
theorem readStage_utf8 (word : Text) : (readStage (utf8 word)).run = .ok (Stage.ofName? word) := by
  rw [readStage, Reading.run_lift_bind (text_utf8 word)]
  rfl

/-- The stage of the marker of a text. -/
def markerStage? (s : Text) : Option Stage :=
  (after? ['@'] s).bind fun t => (word? t).bind fun p => Stage.ofName? p.1

/-- The stage of the placeholder of a text. -/
def placeholderStage? (s : Text) : Option Stage :=
  (after? ['{', '{'] s).bind fun t => (word? t).bind fun p => (after? ['}', '}'] p.2).bind fun _ =>
    Stage.ofName? p.1

/-- A text starts with a marker or with a placeholder. -/
theorem map_readStageMarker (s : Text) :
    (readStageMarker s).map Prod.fst = (markerStage? s).or (placeholderStage? s) := by
  have hnone : ∀ {pat s : Text}, (∀ t, s ≠ pat ++ t) → after? pat s = none := fun h =>
    Option.eq_none_iff_forall_ne_some.2 fun t ht => h t (after?_eq_some_iff.1 ht)
  unfold readStageMarker
  split
  · rename_i t
    have hmarker : markerStage? ('@' :: t) = (word? t).bind fun p => Stage.ofName? p.1 := rfl
    have hplaceholder : placeholderStage? ('@' :: t) = none := rfl
    rw [hmarker, hplaceholder, Option.or_none]
    cases word? t with
    | none => rfl
    | some p => simp [Function.comp_def]
  · rename_i t
    have hmarker : markerStage? ('{' :: '{' :: t) = none := rfl
    have hplaceholder : placeholderStage? ('{' :: '{' :: t) = (word? t).bind fun p =>
      (after? ['}', '}'] p.2).bind fun _ => Stage.ofName? p.1 := rfl
    rw [hmarker, hplaceholder, Option.none_or]
    split
    · rename_i w r hword
      rw [hword, Option.bind_some, show '}' :: '}' :: r = ['}', '}'] ++ r from rfl, after?_append]
      simp [Function.comp_def]
    · rename_i hword
      cases hw : word? t with
      | none => rfl
      | some p =>
        rw [Option.bind_some, hnone fun r hr => hword p.1 r (hw.trans (congrArg some (Prod.ext rfl hr)))]
        rfl
  · rename_i hmarker hplaceholder
    rw [markerStage?, placeholderStage?, hnone fun t ht => hmarker t ht,
      hnone fun t ht => hplaceholder t ht]
    rfl

/-- **The marker at a place.** -/
theorem readMarker_place (h : s <:+ S) :
    (readMarker (utf8 S) (place S s)).run = .ok (markerStage? s) := by
  have hat : ('@' : Char).toNat < 128 := by decide
  rw [readMarker, Reading.run_guard_bind (getElem?_place_eq_iff hat h), markerStage?]
  split
  · rename_i hhead
    obtain ⟨t, rfl⟩ := List.head?_eq_some_iff.1 hhead
    have hafter : after? ['@'] ('@' :: t) = some t := rfl
    rw [place_cons hat h, hafter, Option.bind_some]
    refine Reading.run_bind (readWord_place ((List.suffix_cons _ t).trans h)) ?_
    rintro ⟨word, r⟩ -
    exact readStage_utf8 word
  · rename_i hhead
    have hnone : after? ['@'] s = none :=
      Option.eq_none_iff_forall_ne_some.2 fun t ht => hhead (by rw [after?_eq_some_iff.1 ht]; rfl)
    rw [hnone]
    rfl

/-- **The placeholder at a place.** -/
theorem readPlaceholder_place (h : s <:+ S) :
    (readPlaceholder (utf8 S) (place S s)).run = .ok (placeholderStage? s) := by
  have hstart := isPrefixOf_utf8 ['{', '{'] (by decide) s
  rw [readPlaceholder, Reading.run_lift_bind (bytesFrom_place h), placeholderStage?,
    Reading.run_guard_bind (q := (after? ['{', '{'] s).isSome) (by rw [hstart])]
  cases hafter : after? ['{', '{'] s with
  | none => rfl
  | some t =>
    have ht : t <:+ S := (after?_suffix hafter).trans h
    have hplace : place S s + 2 = place S t := place_after? h hafter
    rw [if_pos (by rfl), hplace, Option.bind_some]
    refine Reading.run_bind (readWord_place ht) ?_
    rintro ⟨word, r⟩ hword
    refine Reading.run_bind (readPrefix_place (by decide) ((word?_suffix hword).trans ht)) ?_
    rintro _ -
    exact readStage_utf8 word

/-- One turn of the search at a place. -/
theorem stageStep_place (h : s <:+ S) (b : UInt8) :
    stageStep (utf8 S) (place S s) b () =
      .ok (match (readStageMarker s).map Prod.fst with
        | some stage => .done (some stage)
        | none => .next (place S s + 1) ()) := by
  rw [stageStep, readMarker_place h, readPlaceholder_place h, map_readStageMarker]
  cases markerStage? s with
  | some stage => rfl
  | none => cases placeholderStage? s <;> rfl

/-- A marker starts with `@`, a placeholder with a brace. -/
theorem readStageMarker_of_ne {c : Char} (hat : c ≠ '@') (hbrace : c ≠ '{') (s : Text) :
    readStageMarker (c :: s) = none := by
  unfold readStageMarker
  split
  · rename_i h
    exact absurd (List.cons.inj h).1 hat
  · rename_i h
    exact absurd (List.cons.inj h).1 hbrace
  · rfl

/-- **The stage that a template is for.** Nothing goes wrong in the search. -/
theorem detectStage_utf8 (S : Text) : detectStage (utf8 S) = .ok (ShaderWeave.detectStage S) := by
  have hfollows : FollowsLive S (stageStep (utf8 S)) (fun _ => .ok none)
      (fun s _ => (items stageMarkerReader s).head? = ShaderWeave.detectStage S)
      (ShaderWeave.detectStage S) := by
    refine ⟨?_, ?_, ?_, ?_, ?_⟩
    · intro _ hstage
      rw [← hstage, items_nil]
      rfl
    · intro i b _ hb hhigh
      have hstart := isPrefixOf_drop_of_high (a := '{') ['{'] (by decide) hb hhigh
      have hat : ¬(utf8 S)[i]? = some (ascii '@') := by
        rw [hb, Option.some.injEq]
        exact ne_ascii_of_high hhigh (by decide)
      have hmarker : (readMarker (utf8 S) i).run = .ok none := by
        rw [readMarker, Reading.run_guard_bind Iff.rfl, if_neg hat]
      have hplaceholder : (readPlaceholder (utf8 S) i).run = .ok none := by
        rw [readPlaceholder, Reading.run_lift_bind (bytesFrom_of_getElem? hb),
          Reading.run_guard_bind Iff.rfl, if_neg (by rw [hstart]; simp)]
      rw [stageStep, hmarker, hplaceholder]
      rfl
    · intro c t _ hc hcomment hstage
      have hnone : stageMarkerReader.read (c :: t) = none := by
        refine readStageMarker_of_ne ?_ ?_ t <;> rintro rfl <;> exact absurd hc (by decide)
      rwa [items_of_unread hcomment hnone] at hstage
    · intro t u r _ hcomment hstage
      rwa [items_of_comment? hcomment] at hstage
    · intro c t _ hc hs hcomment hstage
      rw [stageStep_place hs]
      cases hread : readStageMarker (c :: t) with
      | none =>
        rw [items_of_unread hcomment hread] at hstage
        exact .inr ⟨t, (), List.suffix_refl t, by rw [place_cons hc hs]; rfl, hstage⟩
      | some p =>
        obtain ⟨stage, r⟩ := p
        rw [items_of_read hcomment hread] at hstage
        rw [← hstage]
        exact .inl rfl
  have := hfollows.scan_eq () (List.suffix_refl S) rfl
  rwa [place_self] at this

/-! ### Entry markers of lines -/

/-- A text is a word exactly if what is read as a word is all of it. -/
theorem bind_word?_eq {α : Type} (s : Text) (a : α) :
    ((word? s).bind fun p => if p.2 = [] then some a else none) =
      if s ≠ [] ∧ s.all isWordChar then some a else none := by
  have hall : s.dropWhile isWordChar = [] ↔ s.all isWordChar = true := by
    rw [List.dropWhile_eq_nil_iff, List.all_eq_true]
  rw [word?]
  by_cases hnil : s = []
  · simp [hnil]
  · by_cases hword : s.takeWhile isWordChar = []
    · have hnone : ¬s.all isWordChar = true := by
        intro h
        have := List.takeWhile_append_dropWhile (p := isWordChar) (l := s)
        rw [hword, hall.2 h] at this
        exact hnil this.symm
      rw [if_pos hword, if_neg fun h => hnone h.2]
      rfl
    · rw [if_neg hword, Option.bind_some]
      simp only [hall, ne_eq, hnil, not_false_eq_true, true_and]

/-- An entry marker, step by step. -/
theorem parse?_eq (line : Text) :
    EntryMarker.parse? line =
      (after? ['@'] (trim line)).bind fun r => (word? r).bind fun p =>
        (Stage.ofName? p.1).bind fun stage => (parenthesized? (Text.skipBlanks p.2)).bind fun q =>
          (after? ['-', '>'] (trimStart q.2)).bind fun r => (word? (trimStart r)).bind fun o =>
            if trim o.2 = ['{'] then (word? q.1).bind fun w =>
              if w.2 = [] then some ⟨stage, q.1, o.1⟩ else none
            else none := by
  have hguards : ∀ (p q : Prop) [Decidable p] [Decidable q] (m : EntryMarker),
      (do guard p; guard q; return m : Option EntryMarker) =
        if p then if q then some m else none else none := by
    intro p q _ _ m
    unfold guard
    split_ifs <;> rfl
  rw [EntryMarker.parse?]
  refine bind_congr fun r => bind_congr fun p => bind_congr fun stage => bind_congr fun q =>
    bind_congr fun r => bind_congr fun o => ?_
  rw [bind_word?_eq]
  exact hguards _ _ _

/-- **The entry marker of a line.** -/
theorem parseEntryMarker_utf8 (line : Text) :
    (parseEntryMarker (utf8 line)).run =
      .ok ((EntryMarker.parse? line).map fun m => (m.stage, utf8 m.input, utf8 m.output)) := by
  rw [parseEntryMarker, parse?_eq, Reading.run_lift_bind (text_utf8 line)]
  refine Reading.run_pure_bind ?_
  intro r _
  refine Reading.run_bind_map (readWord_start r) ?_
  rintro ⟨name, r₁⟩ hname
  have hr₁ := word?_suffix hname
  refine Reading.run_bind_same (readStage_utf8 name) ?_
  intro stage _
  rw [skipBlanks_place hr₁]
  refine Reading.run_bind_map (readParens_place ((skipBlanks_suffix r₁).trans hr₁)) ?_
  rintro ⟨input, r₂⟩ hinput
  have hr₂ : r₂ <:+ r := (parenthesized?_suffix hinput).trans ((skipBlanks_suffix r₁).trans hr₁)
  rw [Reading.run_lift_bind (sliceFrom_place hr₂), Reading.run_lift_bind (text_utf8 r₂)]
  refine Reading.run_pure_bind ?_
  intro t _
  refine Reading.run_bind_map (readWord_start (trimStart t)) ?_
  rintro ⟨output, t₁⟩ houtput
  have ht₁ := word?_suffix houtput
  rw [Reading.run_lift_bind (sliceFrom_place ht₁), Reading.run_lift_bind (text_utf8 t₁),
    Reading.run_guard_bind Iff.rfl]
  by_cases hbrace : trim t₁ = ['{']
  · rw [if_pos hbrace, if_pos hbrace]
    refine Reading.run_bind_map (readWord_start input) ?_
    rintro ⟨word, rest⟩ hrest
    rw [Reading.run_guard_bind (place_eq_length_iff (word?_suffix hrest))]
    split <;> rfl
  · rw [if_neg hbrace, if_neg hbrace]
    rfl

/-- A line with its entry marker written out. -/
theorem expandLine_utf8 (line : Text) :
    expandLine (utf8 line) = .ok (utf8 (EntryMarker.expandLine line)) := by
  have hsplit : line.takeWhile isSpace ++ trimStart line = line := List.takeWhile_append_dropWhile
  have hslice := slice_place (S := line) (t := line.takeWhile isSpace) (r := trimStart line)
    (by rw [hsplit])
  rw [hsplit, place_self] at hslice
  have hindent := difference_place (S := line) (s := trimStart line) (List.dropWhile_suffix _)
  rw [expandLine, parseEntryMarker_utf8, EntryMarker.expandLine]
  cases EntryMarker.parse? line with
  | none => rfl
  | some m =>
    simp only [Option.map_some, bind, Except.bind, text_utf8, hindent, hslice]
    split <;> simp [utf8_cons_of_ascii] <;> rfl

/-- **A text with its entry markers written out.** Nothing goes wrong. -/
theorem expandEntries_utf8 (s : Text) :
    expandEntries (utf8 s) = .ok (utf8 (ShaderWeave.expandEntries s)) := by
  have hlines := mapM_ok (l := lines s) (f := fun line => expandLine (utf8 line))
    (g := fun line => utf8 (EntryMarker.expandLine line)) fun line _ => expandLine_utf8 line
  have hout : utf8 (ShaderWeave.expandEntries s) =
      ((lines s).map fun line => utf8 (EntryMarker.expandLine line)).flatten := by
    rw [ShaderWeave.expandEntries, utf8, List.flatMap_assoc, List.flatMap_def]
    rfl
  rw [expandEntries, text_utf8, hout]
  simp only [bind, Except.bind, hlines]
  rfl

end Bytewise

end ShaderWeave
