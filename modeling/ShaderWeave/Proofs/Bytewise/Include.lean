import ShaderWeave.Proofs.Bytewise.Walk
import ShaderWeave.Proofs.Include.Insertion

set_option autoImplicit false

/-!
# Include directives in bytes

The directives of a text, for a program that holds its bytes. Lines are texts of their own. Comments that
are open behind a line are found byte by byte, and the place for further directives is an offset that is
added up along the lines.

## Main definitions

* `ShaderWeave.Bytewise.commentOpenAfter` — whether a block comment is open behind a line.
* `ShaderWeave.Bytewise.directives` — the lines of a text with the names that they include.
* `ShaderWeave.Bytewise.stripIncludes`, `ShaderWeave.Bytewise.insertIncludes` — a text without its
  directives, and with further ones.

## Main results

* `ShaderWeave.Bytewise.lastDirective_eq` — the offset is the place behind the last directive.
* `ShaderWeave.Bytewise.stripIncludes_utf8`, `ShaderWeave.Bytewise.insertIncludes_utf8` — nothing goes
  wrong in either.
-/

namespace ShaderWeave

namespace Bytewise

open Text Bytes Scan

variable {S s r : Text}

/-! ### Comments that are open behind a line -/

/-- One turn along a line, with whether a block comment is open. A line comment ends the line. -/
def commentStep (line : Bytes) (i : Nat) (_ : UInt8) (inComment : Bool) : Guarded (Step Bool Bool) := do
  let rest ← bytesFrom line i
  return if inComment then
    if (utf8 ['*', '/']).isPrefixOf rest then .next (i + 2) false else .next (i + 1) true
  else if (utf8 ['/', '/']).isPrefixOf rest then .done false
  else if (utf8 ['/', '*']).isPrefixOf rest then .next (i + 2) true
  else .next (i + 1) false

/-- **Whether a block comment is open behind a line**, given whether one is open at its start. -/
def commentOpenAfter (inComment : Bool) (line : Bytes) : Guarded Bool :=
  walk line (commentStep line) (fun inComment => .ok inComment) 0 inComment

/-- One turn at a place. -/
theorem commentStep_place (h : s <:+ S) (b : UInt8) (inComment : Bool) :
    commentStep (utf8 S) (place S s) b inComment =
      .ok (if inComment then
        if (after? ['*', '/'] s).isSome then .next (place S s + 2) false
        else .next (place S s + 1) true
      else if (after? ['/', '/'] s).isSome then .done false
      else if (after? ['/', '*'] s).isSome then .next (place S s + 2) true
      else .next (place S s + 1) false) := by
  rw [commentStep, bytesFrom_place h]
  simp only [bind, Except.bind, pure, Except.pure, isPrefixOf_utf8 ['*', '/'] (by decide),
    isPrefixOf_utf8 ['/', '/'] (by decide), isPrefixOf_utf8 ['/', '*'] (by decide)]

/-- Within a block comment it is its end that counts. -/
theorem liveLine_true_cons (c : Char) (s : Text) :
    (liveLine true (c :: s)).2 = match after? ['*', '/'] (c :: s) with
      | some r => (liveLine false r).2
      | none => (liveLine true s).2 := by
  cases hend : after? ['*', '/'] (c :: s) with
  | some r => rw [after?_eq_some_iff.1 hend, List.cons_append, List.singleton_append, liveLine]
  | none =>
    rw [liveLine]
    rintro t rfl rfl
    cases hend

/-- Outside of one it is the start of a comment. -/
theorem liveLine_false_cons (c : Char) (s : Text) :
    (liveLine false (c :: s)).2 = match after? ['/', '/'] (c :: s), after? ['/', '*'] (c :: s) with
      | some _, _ => false
      | none, some r => (liveLine true r).2
      | none, none => (liveLine false s).2 := by
  cases hline : after? ['/', '/'] (c :: s) with
  | some r => rw [after?_eq_some_iff.1 hline, List.cons_append, List.singleton_append, liveLine]
  | none =>
    cases hblock : after? ['/', '*'] (c :: s) with
    | some r => rw [after?_eq_some_iff.1 hblock, List.cons_append, List.singleton_append, liveLine]
    | none =>
      rw [liveLine]
      · rintro t rfl rfl
        cases hline
      · rintro t rfl rfl
        cases hblock

/-- A character that is not ASCII is passed. -/
theorem liveLine_cons_of_high {c : Char} (hc : 128 ≤ c.toNat) (inComment : Bool) (s : Text) :
    (liveLine inComment (c :: s)).2 = (liveLine inComment s).2 := by
  have hnone : ∀ {a b : Char}, a.toNat < 128 → after? [a, b] (c :: s) = none := by
    intro a b ha
    rw [after?, if_neg]
    rintro rfl
    omega
  cases inComment with
  | true => rw [liveLine_true_cons, hnone (by decide)]
  | false => rw [liveLine_false_cons, hnone (by decide), hnone (by decide)]

/-- **Whether a block comment is open behind a line.** -/
theorem commentOpenAfter_utf8 (inComment : Bool) (line : Text) :
    commentOpenAfter inComment (utf8 line) = .ok (Scan.commentOpenAfter inComment line) := by
  -- what is still to be read decides with the state whether a comment is open behind the line
  have hfollows : Follows line (commentStep (utf8 line)) (fun inComment => .ok inComment)
      (fun s state => (liveLine state s).2 = Scan.commentOpenAfter inComment line)
      (Scan.commentOpenAfter inComment line) := by
    refine ⟨?_, ?_, ?_, ?_⟩
    · intro state h
      rw [← h, liveLine]
    · -- bytes outside ASCII neither open nor close a comment
      intro i b state hb hhigh
      have hstar := isPrefixOf_drop_of_high (a := '*') ['/'] (by decide) hb hhigh
      have hline := isPrefixOf_drop_of_high (a := '/') ['/'] (by decide) hb hhigh
      have hblock := isPrefixOf_drop_of_high (a := '/') ['*'] (by decide) hb hhigh
      rw [commentStep, bytesFrom_of_getElem? hb]
      simp only [bind, Except.bind, pure, Except.pure, hstar, hline, hblock]
      cases state <;> rfl
    · -- nor do characters outside ASCII
      intro c s state hc h
      rwa [liveLine_cons_of_high hc] at h
    · intro c s state hc hs h
      -- at an ASCII character, in a block comment or outside
      rw [commentStep_place hs, place_cons hc hs]
      have hsuffix : ∀ {a b : Char} {r : Text}, after? [a, b] (c :: s) = some r → r <:+ s := fun h =>
        (List.cons.inj (after?_eq_some_iff.1 h)).2 ▸ List.suffix_cons _ _
      cases state with
      | true =>
        rw [liveLine_true_cons] at h
        cases hend : after? ['*', '/'] (c :: s) with
        | some r =>
          rw [hend] at h
          refine .inr ⟨r, false, hsuffix hend, ?_, h⟩
          rw [← place_after? hs hend]
          rfl
        | none =>
          rw [hend] at h
          exact .inr ⟨s, true, List.suffix_refl s, rfl, h⟩
      | false =>
        rw [liveLine_false_cons] at h
        cases hline : after? ['/', '/'] (c :: s) with
        | some r =>
          rw [hline] at h
          rw [← h]
          exact .inl rfl
        | none =>
          rw [hline] at h
          cases hblock : after? ['/', '*'] (c :: s) with
          | some r =>
            rw [hblock] at h
            refine .inr ⟨r, true, hsuffix hblock, ?_, h⟩
            rw [← place_after? hs hblock]
            rfl
          | none =>
            rw [hblock] at h
            exact .inr ⟨s, false, List.suffix_refl s, rfl, h⟩
  have := hfollows.walk_eq (List.suffix_refl line) rfl
  rwa [place_self] at this

/-! ### Directives -/

/-- Lines with the names that they include, given whether a block comment is open before them. -/
def directivesFrom : (inComment : Bool) → List Bytes → Guarded (List (Bytes × Option Bytes))
  | _, [] => .ok []
  | inComment, line :: lines => do
    let l ← text line
    let name := if inComment then none else Include.name? l
    let inComment ← commentOpenAfter inComment line
    let rest ← directivesFrom inComment lines
    return (line, name.map utf8) :: rest

/-- **The lines of a text with the names that they include.** -/
def directives (src : Bytes) : Guarded (List (Bytes × Option Bytes)) := do
  let s ← text src
  directivesFrom false ((lines s).map utf8)

/-- **The names that a text includes**, each once. -/
def includeNames (src : Bytes) : Guarded (List String) := do
  let names := (← directives src).filterMap Prod.snd
  let names ← names.mapM text
  return Include.distinct (names.map String.ofList)

/-- **A text without its directives.** -/
def stripIncludes (src : Bytes) : Guarded Bytes := do
  let lines ← directives src
  return (lines.filter (·.2.isNone)).flatMap Prod.fst

/-- The offset behind the last directive, if there is one, among lines from an offset on. The last one
before them is given. -/
def lastDirective : (offset : Nat) → (last : Option Nat) → List (Bytes × Option Bytes) → Option Nat
  | _, last, [] => last
  | offset, last, (line, name) :: lines =>
    lastDirective (offset + line.length) (if name.isSome then some (offset + line.length) else last) lines

/-- **A text with further directives.** -/
def insertIncludes (names : List String) (src : Bytes) : Guarded Bytes :=
  if names = [] then return src
  else do
    let place := (lastDirective 0 none (← directives src)).getD 0
    let front ← slice src 0 place
    let back ← sliceFrom src place
    let gap := if place = 0 ∨ front.getLast? = some (ascii '\n') then [] else [ascii '\n']
    return front ++ gap ++ utf8 (names.flatMap Include.line) ++ back

/-- A line with the name that it includes, in bytes. -/
def encodedLine (p : Text × Option Text) : Bytes × Option Bytes :=
  (utf8 p.1, p.2.map utf8)

/-- The directives of lines in bytes are those of the lines. -/
theorem directivesFrom_utf8 (inComment : Bool) (ls : List Text) :
    directivesFrom inComment (ls.map utf8) =
      .ok ((Include.directivesFrom inComment ls).map encodedLine) := by
  induction ls generalizing inComment with
  | nil => rfl
  | cons l ls ih =>
    rw [List.map_cons, directivesFrom, text_utf8]
    simp only [bind, Except.bind, commentOpenAfter_utf8, ih]
    rfl

/-- **The directives of a text.** -/
theorem directives_utf8 (s : Text) :
    directives (utf8 s) = .ok ((Include.directives s).map encodedLine) := by
  rw [directives, text_utf8]
  exact directivesFrom_utf8 false (lines s)

/-- The names that bytes include are those that the text includes. -/
theorem includeNames_utf8 (s : Text) : includeNames (utf8 s) = .ok (ShaderWeave.includeNames s) := by
  have hnames : ((Include.directives s).map encodedLine).filterMap Prod.snd =
      ((Include.directives s).filterMap Prod.snd).map utf8 := by
    rw [List.filterMap_map, List.map_filterMap]
    rfl
  rw [includeNames, directives_utf8]
  simp only [bind, Except.bind, hnames, mapM_text]
  rw [ShaderWeave.includeNames, List.map_filterMap]
  rfl

/-- **A text without its directives.** Nothing goes wrong. -/
theorem stripIncludes_utf8 (s : Text) :
    stripIncludes (utf8 s) = .ok (utf8 (ShaderWeave.stripIncludes s)) := by
  have hkept : ((Include.directives s).map encodedLine).filter (·.2.isNone) =
      ((Include.directives s).filter (·.2.isNone)).map encodedLine := by
    rw [List.filter_map]
    congr 1
    refine List.filter_congr fun p _ => ?_
    simp [encodedLine]
  rw [stripIncludes, directives_utf8, ShaderWeave.stripIncludes, utf8, List.flatMap_assoc]
  simp only [bind, Except.bind, hkept, List.flatMap_map]
  rfl

/-! ### The place for further directives -/

/-- The text up to the last directive among lines. -/
def throughLast (ds : List (Text × Option Text)) : Text :=
  (ds.rdropWhile (·.2.isNone)).flatMap Prod.fst

/-- The text behind the last directive among lines. -/
def behindLast (ds : List (Text × Option Text)) : Text :=
  (ds.rtakeWhile (·.2.isNone)).flatMap Prod.fst

/-- What comes of one more line. -/
theorem lastDirective_concat (ds : List (Bytes × Option Bytes)) (d : Bytes × Option Bytes) (offset : Nat)
    (last : Option Nat) :
    lastDirective offset last (ds ++ [d]) =
      if d.2.isSome then some (offset + ((ds ++ [d]).flatMap Prod.fst).length)
      else lastDirective offset last ds := by
  induction ds generalizing offset last with
  | nil => simp [lastDirective]
  | cons e ds ih =>
    rw [List.cons_append, lastDirective, ih, lastDirective, List.flatMap_cons, List.length_append,
      Nat.add_assoc]

/-- The lines in bytes make up the bytes of the text. -/
theorem flatMap_fst_encodedLine (ds : List (Text × Option Text)) :
    (ds.map encodedLine).flatMap Prod.fst = utf8 (ds.flatMap Prod.fst) := by
  rw [utf8, List.flatMap_assoc, List.flatMap_map]
  rfl

/-- **The place for further directives** is behind the text up to the last directive. -/
theorem lastDirective_eq (ds : List (Text × Option Text)) :
    (lastDirective 0 none (ds.map encodedLine)).getD 0 = byteSize (throughLast ds) := by
  induction ds using List.reverseRecOn with
  | nil => rfl
  | append_singleton ds d ih =>
    have hmap : (ds ++ [d]).map encodedLine = ds.map encodedLine ++ [encodedLine d] := by
      rw [List.map_append]
      rfl
    rw [hmap, lastDirective_concat, ← hmap, flatMap_fst_encodedLine, length_utf8, throughLast]
    by_cases h : d.2.isNone
    · have hname : (encodedLine d).2.isSome = false := by
        simp [encodedLine, Option.isNone_iff_eq_none.1 h]
      rw [hname, if_neg (by simp), ih, List.rdropWhile_concat_pos (·.2.isNone) ds d h, throughLast]
    · have hname : (encodedLine d).2.isSome = true := by
        rw [encodedLine, Option.isSome_map, Option.isSome_iff_ne_none]
        exact mt Option.isNone_iff_eq_none.2 h
      rw [hname, if_pos rfl, List.rdropWhile_concat_neg (·.2.isNone) ds d h, Nat.zero_add]
      rfl

/-- The lines up to the last directive and those behind it make up the text. -/
theorem throughLast_append_behindLast (s : Text) :
    throughLast (Include.directives s) ++ behindLast (Include.directives s) = s := by
  rw [throughLast, behindLast, ← List.flatMap_append, List.rdropWhile_append_rtakeWhile, List.flatMap_def,
    Include.directives, Include.map_fst_directivesFrom, flatten_lines]

/-- **A text with further directives.** Nothing goes wrong. -/
theorem insertIncludes_utf8 (names : List String) (s : Text) :
    insertIncludes names (utf8 s) = .ok (utf8 (ShaderWeave.insertIncludes names s)) := by
  have htext : ShaderWeave.insertIncludes names s =
      if names = [] then s
      else throughLast (Include.directives s)
        ++ (if throughLast (Include.directives s) = [] ∨
            (throughLast (Include.directives s)).getLast? = some '\n' then [] else ['\n'])
        ++ names.flatMap Include.line ++ behindLast (Include.directives s) := rfl
  rw [insertIncludes, htext]
  by_cases hnames : names = []
  · rw [if_pos hnames, if_pos hnames]
    rfl
  · have hsplit := throughLast_append_behindLast s
    have hplace := place_append (S := s) (t := throughLast (Include.directives s))
      (r := behindLast (Include.directives s)) (by rw [hsplit])
    have hslice := slice_place (S := s) (t := throughLast (Include.directives s))
      (r := behindLast (Include.directives s)) (by rw [hsplit])
    have hback := sliceFrom_place (S := s) (s := behindLast (Include.directives s))
      (by exact ⟨throughLast (Include.directives s), hsplit⟩)
    rw [hsplit, place_self] at hslice hplace
    rw [Nat.zero_add] at hplace
    have hempty : byteSize (throughLast (Include.directives s)) = 0 ↔
        throughLast (Include.directives s) = [] := by
      rw [← length_utf8, List.length_eq_zero_iff, utf8_eq_nil_iff]
    rw [if_neg hnames, if_neg hnames, directives_utf8]
    simp only [bind, Except.bind, lastDirective_eq]
    rw [hplace, hslice, hback, ← hplace]
    simp only [pure, Except.pure, hempty, getLast?_utf8_eq_iff (a := '\n') (by decide), utf8_append]
    split <;> rfl

end Bytewise

end ShaderWeave
