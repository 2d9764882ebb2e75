import ShaderWeave.Proofs.Composition.Parts
import ShaderWeave.Proofs.Conditional.Parts
import ShaderWeave.Proofs.Text.Respacing

set_option autoImplicit false

/-!
# A newline at the end

A newline at the end of a program stays there while the program is finished, and changes nothing else:
no comment, conditional or macro that is not closed in front of it is closed by it, and an entry marker
is one with or without it.

## Main results

* `ShaderWeave.Scan.pieces_append_newline` — the pieces of a text with a newline at the end.
* `ShaderWeave.expandEntries_append_newline`, `ShaderWeave.expandConditionals_append_newline`,
  `ShaderWeave.MacroForm.replace_append_newline` — a newline at the end stays there.
* `ShaderWeave.Composer.value_finish_append_newline` — so it does while a program is finished.
-/

namespace ShaderWeave

open Text Scan

/-! ### Comments and blocks -/

namespace Scan

/-- Behind a comment the newline is at the end of the rest, or the comment is not closed and takes it
in. -/
theorem comment?_append_newline {s t r : Text} (h : comment? s = some (t, r)) :
    comment? (s ++ ['\n']) = some (t, r ++ ['\n']) ∨
      r = [] ∧ comment? (s ++ ['\n']) = some (t ++ ['\n'], []) := by
  have hline : ∀ s, throughNewline (s ++ ['\n']) = ((throughNewline s).1, (throughNewline s).2 ++ ['\n']) ∨
      (throughNewline s).2 = [] ∧ throughNewline (s ++ ['\n']) = ((throughNewline s).1 ++ ['\n'], []) := by
    intro s
    induction s with
    | nil => exact .inr ⟨rfl, rfl⟩
    | cons c s ih =>
      by_cases hc : c = '\n'
      · exact .inl (by simp [throughNewline, hc])
      · rcases ih with ih | ⟨hnil, ih⟩
        · exact .inl (by simp [throughNewline, hc, ih])
        · exact .inr (by simp [throughNewline, hc, ih, hnil])
  have hblock : ∀ s, throughBlockEnd (s ++ ['\n']) = ((throughBlockEnd s).1, (throughBlockEnd s).2 ++ ['\n']) ∨
      (throughBlockEnd s).2 = [] ∧ throughBlockEnd (s ++ ['\n']) = ((throughBlockEnd s).1 ++ ['\n'], []) := by
    intro s
    fun_induction throughBlockEnd s with
    | case1 => exact .inr ⟨rfl, rfl⟩
    | case2 => exact .inl rfl
    | case3 c s hend ih =>
      have hcons : throughBlockEnd (c :: s ++ ['\n']) =
          (c :: (throughBlockEnd (s ++ ['\n'])).1, (throughBlockEnd (s ++ ['\n'])).2) := by
        rw [List.cons_append, throughBlockEnd]
        rintro v rfl hv
        cases s with
        | nil => cases hv
        | cons d s =>
          obtain ⟨rfl, -⟩ := List.cons.inj hv
          exact hend s rfl rfl
      rcases ih with ih | ⟨hnil, ih⟩
      · exact .inl (by rw [hcons, ih])
      · exact .inr ⟨hnil, by rw [hcons, ih]; rfl⟩
  unfold comment? at h
  split at h
  · rename_i s
    cases h
    rcases hline s with h | ⟨hnil, h⟩
    · exact .inl (by simp [comment?, h])
    · exact .inr ⟨hnil, by simp [comment?, h]⟩
  · rename_i s
    cases h
    rcases hblock s with h | ⟨hnil, h⟩
    · exact .inl (by simp [comment?, h])
    · exact .inr ⟨hnil, by simp [comment?, h]⟩
  · cases h

/-- No comment starts at a text with a newline at the end that does not start without it. -/
theorem comment?_append_newline_of_none {c : Char} {s : Text} (h : comment? (c :: s) = none) :
    comment? (c :: (s ++ ['\n'])) = none :=
  comment?_append_cons h (by decide) (by decide) []

/-- The newline is behind the matching brace. -/
theorem cutAtBrace?_append_newline (d : Nat) (s : Text) :
    cutAtBrace? d (s ++ ['\n']) = (cutAtBrace? d s).map fun p => (p.1, p.2 ++ ['\n']) := by
  have hnil : ∀ d, cutAtBrace? d [] = none := fun d => by rw [cutAtBrace?]
  fun_induction lexemes s generalizing d with
  | case1 =>
    rw [List.nil_append, cutAtBrace?_of_live (comment?_cons_eq_none (by decide) []), hnil]
    simp [hnil]
  | case2 c s t r h ih =>
    rw [cutAtBrace?_of_comment? h]
    rcases comment?_append_newline h with h' | ⟨rfl, h'⟩
    · rw [cutAtBrace?_of_comment? h', ih]
      simp [Function.comp_def]
    · rw [cutAtBrace?_of_comment? h', hnil]
      rfl
  | case3 c s h ih =>
    rw [cutAtBrace?_of_live h, List.cons_append,
      cutAtBrace?_of_live (comment?_append_newline_of_none h), ih, ih]
    split
    · simp [Function.comp_def]
    · split
      · rfl
      · simp [Function.comp_def]

/-- A newline at the end of the text stays behind a block. -/
theorem block?_append_newline (s : Text) :
    block? (s ++ ['\n']) = (block? s).map fun p => (p.1, p.2 ++ ['\n']) := by
  cases s with
  | nil => rfl
  | cons c s =>
    by_cases hc : c = '{'
    · subst hc
      exact cutAtBrace?_append_newline 0 s
    · rw [List.cons_append, block?.eq_2 _ fun t h => hc (List.cons.inj h).1,
        block?.eq_2 _ fun t h => hc (List.cons.inj h).1]
      rfl

/-- **The pieces of a text with a newline at the end** are those of the text, where each item is read with
the newline as it is without. The newline is a piece of its own, or it is part of a comment that is not
closed. -/
theorem pieces_append_newline {α : Type} {R Q : Reader α}
    (hread : ∀ s, Q.read (s ++ ['\n']) = (R.read s).map fun p => (p.1, p.2 ++ ['\n'])) (s : Text) :
    pieces Q (s ++ ['\n']) = pieces R s ++ [.plain '\n'] ∨
      ∃ ps t, pieces R s = ps ++ [.comment t] ∧
        pieces Q (s ++ ['\n']) = ps ++ [.comment (t ++ ['\n'])] := by
  have hnil : ∀ P : Reader α, pieces P [] = [] := fun P => by rw [pieces]
  have hmore : ∀ {r : Text} (p : Piece α),
      (pieces Q (r ++ ['\n']) = pieces R r ++ [.plain '\n'] ∨
        ∃ ps t, pieces R r = ps ++ [.comment t] ∧
          pieces Q (r ++ ['\n']) = ps ++ [.comment (t ++ ['\n'])]) →
      p :: pieces Q (r ++ ['\n']) = p :: pieces R r ++ [.plain '\n'] ∨
        ∃ ps t, p :: pieces R r = ps ++ [.comment t] ∧
          p :: pieces Q (r ++ ['\n']) = ps ++ [.comment (t ++ ['\n'])] := by
    rintro r p (h | ⟨ps, t, hps, h⟩)
    · exact .inl (congrArg (p :: ·) h)
    · exact .inr ⟨p :: ps, t, congrArg (p :: ·) hps, congrArg (p :: ·) h⟩
  induction hn : s.length using Nat.strong_induction_on generalizing s with
  | _ k ih =>
  subst hn
  cases s with
  | nil =>
    have hnone : R.read [] = none := by
      rw [Option.eq_none_iff_forall_ne_some]
      rintro ⟨a, r⟩ h
      exact absurd (R.length_lt h) (Nat.not_lt_zero _)
    have h := hread []
    rw [hnone] at h
    left
    rw [List.nil_append, pieces_of_unread (comment?_cons_eq_none (by decide) []) h, hnil, hnil]
    rfl
  | cons c s =>
    cases hcomment : comment? (c :: s) with
    | some p =>
      obtain ⟨t, r⟩ := p
      rw [pieces_of_comment? hcomment]
      rcases comment?_append_newline hcomment with h | ⟨rfl, h⟩
      · rw [pieces_of_comment? h]
        exact hmore _ (ih _ (length_lt_of_comment? hcomment) r rfl)
      · rw [pieces_of_comment? h, hnil, hnil]
        exact .inr ⟨[], t, rfl, rfl⟩
    | none =>
      have hcomment' := comment?_append_newline_of_none hcomment
      have hitem := hread (c :: s)
      rw [List.cons_append] at hitem ⊢
      cases hr : R.read (c :: s) with
      | none =>
        rw [hr] at hitem
        rw [pieces_of_unread hcomment' hitem, pieces_of_unread hcomment hr]
        exact hmore _ (ih _ (Nat.lt_succ_self _) s rfl)
      | some p =>
        obtain ⟨a, r⟩ := p
        rw [hr] at hitem
        -- the item is read from the same text
        have hraw : (c :: (s ++ ['\n'])).take ((c :: (s ++ ['\n'])).length - (r ++ ['\n']).length) =
            (c :: s).take ((c :: s).length - r.length) := by
          have hlength : (c :: (s ++ ['\n'])).length - (r ++ ['\n']).length =
              (c :: s).length - r.length := by simp
          rw [hlength, ← List.cons_append, List.take_append_of_le_length (Nat.sub_le _ _)]
        rw [pieces_of_read hcomment' hitem, pieces_of_read hcomment hr, hraw]
        exact hmore _ (ih _ (R.length_lt hr) r rfl)

/-- **A newline at the end of a text stays there** where comments and plain characters stay. -/
theorem flatMap_pieces_append_newline {α : Type} {R Q : Reader α}
    (hread : ∀ s, Q.read (s ++ ['\n']) = (R.read s).map fun p => (p.1, p.2 ++ ['\n']))
    {f : Piece α → Text} (hcomment : ∀ t, f (.comment t) = t) (hplain : ∀ c, f (.plain c) = [c])
    (s : Text) :
    (pieces Q (s ++ ['\n'])).flatMap f = (pieces R s).flatMap f ++ ['\n'] := by
  rcases pieces_append_newline hread s with h | ⟨ps, t, hps, h⟩
  · rw [h, List.flatMap_append, List.flatMap_singleton, hplain]
  · rw [h, hps, List.flatMap_append, List.flatMap_append, List.flatMap_singleton,
      List.flatMap_singleton, hcomment, hcomment, List.append_assoc]

/-- A newline at the end of a text is no part of its items. -/
theorem filterMap_value?_pieces_append_newline {α : Type} {R Q : Reader α}
    (hread : ∀ s, Q.read (s ++ ['\n']) = (R.read s).map fun p => (p.1, p.2 ++ ['\n'])) (s : Text) :
    (pieces Q (s ++ ['\n'])).filterMap Piece.value? = (pieces R s).filterMap Piece.value? := by
  rcases pieces_append_newline hread s with h | ⟨ps, t, hps, h⟩
  · rw [h, List.filterMap_append]
    exact List.append_nil _
  · rw [h, hps, List.filterMap_append, List.filterMap_append]
    rfl

end Scan

/-! ### Conditionals -/

namespace Text

/-- A newline at the end of the text stays behind a word that has none. -/
theorem after?_append_newline {pat : Text} (hpat : '\n' ∉ pat) (s : Text) :
    after? pat (s ++ ['\n']) = (after? pat s).map (· ++ ['\n']) := by
  cases h : after? pat s with
  | none => exact after?_append_eq_none hpat (by simp) h
  | some r => rw [after?_eq_some_iff.1 h, List.append_assoc, after?_append]; rfl

/-- A newline at the end is skipped with the blanks if nothing else follows them, and otherwise stays. -/
theorem skipBlanks_append_newline (s : Text) :
    skipBlanks (s ++ ['\n']) = if skipBlanks s = [] then [] else skipBlanks s ++ ['\n'] := by
  rw [skipBlanks, List.dropWhile_append]
  simp only [List.isEmpty_iff]
  rfl

/-- A word does not go on behind the end of its line. -/
theorem word?_append_of_endsLine {v : Text} (hv : EndsLine v) (s : Text) :
    word? (s ++ v) = (word? s).map fun p => (p.1, p.2 ++ v) := by
  have hcut : v.takeWhile isWordChar = [] ∧ v.dropWhile isWordChar = v := by
    cases v with
    | nil => exact ⟨rfl, rfl⟩
    | cons c v =>
      obtain rfl := hv c rfl
      exact ⟨rfl, rfl⟩
  have htake : (s ++ v).takeWhile isWordChar = s.takeWhile isWordChar := by
    rw [List.takeWhile_append]
    split
    · rename_i h
      rw [(List.takeWhile_prefix isWordChar).eq_of_length h, hcut.1]
      exact List.append_nil s
    · rfl
  have hdrop : (s ++ v).dropWhile isWordChar = s.dropWhile isWordChar ++ v := by
    rw [List.dropWhile_append]
    split
    · rename_i h
      rw [List.isEmpty_iff.1 h, hcut.2]
      rfl
    · rfl
  rw [word?, word?, htake, hdrop]
  split <;> rfl

/-- A newline at the end of the text stays behind a word. -/
theorem word?_append_newline (s : Text) :
    word? (s ++ ['\n']) = (word? s).map fun p => (p.1, p.2 ++ ['\n']) :=
  word?_append_of_endsLine (endsLine_newline []) s

end Text

namespace Conditional

/-- A newline at the end of the text changes nothing in reading an alternative, and stays behind it. -/
theorem readElse_append_newline (s : Text) :
    readElse (s ++ ['\n']) = (readElse s).map (Option.map fun p => (p.1, p.2 ++ ['\n'])) := by
  have hword : ∀ s, after? "else".toList (skipBlanks (s ++ ['\n'])) =
      (after? "else".toList (skipBlanks s)).map (· ++ ['\n']) := by
    intro s
    rw [skipBlanks_append_newline]
    split
    · rename_i h
      rw [h]
      rfl
    · exact after?_append_newline (by decide) _
  rw [readElse, readElse, hword]
  cases after? "else".toList (skipBlanks s) with
  | none => rfl
  | some r =>
    have hhead : (r ++ ['\n']).head?.any isWordChar = r.head?.any isWordChar := by cases r <;> rfl
    simp only [Option.map_some, hhead]
    split
    · rfl
    · rw [skipBlanks_append_newline]
      cases hskip : skipBlanks r with
      | nil => rfl
      | cons c t =>
        rw [if_neg (by simp), List.cons_append]
        by_cases hc : c = '{'
        · subst hc
          simp only [Option.map_some, ← block?_append_newline, List.cons_append]
        · split
          · rename_i heq
            exact absurd (List.cons.inj heq).1 hc
          · split
            · rename_i heq
              exact absurd (List.cons.inj heq).1 hc
            · rfl

/-- **A conditional is one with the newline at the end or without it.** -/
theorem read_append_newline (s : Text) :
    ((read (s ++ ['\n'])).bind Except.toOption) =
      ((read s).bind Except.toOption).map fun p => (p.1, p.2 ++ ['\n']) := by
  rw [read, read, after?_append_newline (by decide)]
  cases after? "#if".toList s with
  | none => rfl
  | some r =>
    simp only [Option.map_some]
    cases r with
    | nil => rfl
    | cons c r =>
      have hword : word? (skipBlanks (c :: r ++ ['\n'])) =
          (word? (skipBlanks (c :: r))).map fun p => (p.1, p.2 ++ ['\n']) := by
        rw [skipBlanks_append_newline]
        split
        · rename_i h
          rw [h]
          rfl
        · exact word?_append_newline _
      rw [hword]
      by_cases hc : isBlank c = true
      · rw [if_pos (show (c :: r ++ ['\n']).head?.any isBlank = true from hc),
          if_pos (show (c :: r).head?.any isBlank = true from hc)]
        cases word? (skipBlanks (c :: r)) with
        | none => rfl
        | some p =>
          obtain ⟨flag, r⟩ := p
          simp only [Option.map_some]
          rw [skipBlanks_append_newline]
          cases skipBlanks r with
          | nil => rfl
          | cons d t =>
            rw [if_neg (by simp), List.cons_append]
            by_cases hd : d = '{'
            · subst hd
              have hblock := block?_append_newline ('{' :: t)
              rw [List.cons_append] at hblock
              simp only [hblock]
              cases block? ('{' :: t) with
              | none => rfl
              | some q =>
                simp only [Option.map_some, readElse_append_newline]
                cases readElse q.2 with
                | none => rfl
                | some alt => cases alt <;> rfl
            · split
              · rename_i heq
                exact absurd (List.cons.inj heq).1 hd
              · split
                · rename_i heq
                  exact absurd (List.cons.inj heq).1 hd
                · rfl
      · rw [if_neg (show ¬(c :: r ++ ['\n']).head?.any isBlank = true from hc),
          if_neg (show ¬(c :: r).head?.any isBlank = true from hc)]
        rfl

end Conditional

section

variable {flags : Flags}

/-- **A newline at the end of a text stays there when conditionals are expanded.** -/
theorem expandConditionals_append_newline (s : Text) :
    expandConditionals flags (s ++ ['\n']) = expandConditionals flags s ++ ['\n'] := by
  induction hn : s.length using Nat.strong_induction_on generalizing s with
  | _ n ih =>
  subst hn
  cases s with
  | nil =>
    have := (inert_of_all_isSpace (u := ['\n']) (by decide)).expand_append flags []
    rwa [expandConditionals_nil] at this ⊢
  | cons c s =>
    cases hcomment : comment? (c :: s) with
    | some p =>
      obtain ⟨t, r⟩ := p
      rw [expandConditionals_of_comment? hcomment]
      rcases comment?_append_newline hcomment with h | ⟨rfl, h⟩
      · rw [expandConditionals_of_comment? h, ih _ (length_lt_of_comment? hcomment) r rfl,
          List.append_assoc]
      · rw [expandConditionals_of_comment? h, expandConditionals_nil, List.append_nil, List.append_nil]
    | none =>
      have hcomment' := comment?_append_newline_of_none hcomment
      have hread := Conditional.read_append_newline (c :: s)
      cases hr : (Conditional.read (c :: s)).bind Except.toOption with
      | none =>
        rw [hr] at hread
        rw [List.cons_append, expandConditionals_of_unread hcomment' hread,
          expandConditionals_of_unread hcomment hr, ih _ (Nat.lt_succ_self _) s rfl, List.cons_append]
      | some p =>
        obtain ⟨b, r⟩ := p
        rw [hr] at hread
        obtain ⟨x, hx, hok⟩ := Option.bind_eq_some_iff.1 hr
        have hlt : r.length < (c :: s).length := by
          cases x with
          | error => cases hok
          | ok q =>
            cases hok
            have := Conditional.length_lt_of_read hx
            omega
        rw [List.cons_append, expandConditionals_of_read hcomment' hread,
          expandConditionals_of_read hcomment hr, ih _ hlt r rfl, List.append_assoc]

end

/-! ### Macros -/

namespace MacroForm

variable {α : Type} {m : MacroForm} {meaning : Text → Option α} {replacement : α → Text}

/-- The use of a macro is one with the newline at the end or without it. -/
theorem read_append_newline (hm : m.IsTight) (s : Text) :
    m.read meaning (s ++ ['\n']) = (m.read meaning s).map fun p => (p.1, p.2 ++ ['\n']) := by
  have hclose : m.close ≠ '\n' := by
    intro h
    have := hm.close
    rw [h] at this
    revert this
    decide
  refine Option.ext fun ⟨a, r⟩ => ?_
  rw [Option.map_eq_some_iff, read_eq_some_iff hm]
  constructor
  · rintro ⟨arg, hs, harg, hmeaning⟩
    -- the newline does not close the use
    rcases List.eq_nil_or_concat r with rfl | ⟨r, d, rfl⟩
    · have := congrArg List.getLast? hs
      simp only [List.getLast?_append, List.getLast?_singleton] at this
      exact absurd (Option.some.inj this).symm hclose
    · have hs : s ++ ['\n'] = m.opening ++ (arg ++ m.close :: r) ++ [d] := by simpa using hs
      obtain ⟨rfl, hd⟩ := List.append_inj' hs rfl
      cases hd
      exact ⟨(a, r), (read_eq_some_iff hm).2 ⟨arg, rfl, harg, hmeaning⟩, by simp⟩
  · rintro ⟨⟨a, r⟩, hr, he⟩
    cases he
    obtain ⟨arg, rfl, harg, hmeaning⟩ := (read_eq_some_iff hm).1 hr
    exact ⟨arg, by simp, harg, hmeaning⟩

/-- **A newline at the end of a text stays there when macros are replaced.** -/
theorem replace_append_newline (hm : m.IsTight) (s : Text) :
    m.replace meaning replacement (s ++ ['\n']) = m.replace meaning replacement s ++ ['\n'] :=
  flatMap_pieces_append_newline (R := m.reader meaning) (read_append_newline hm) (fun _ => rfl)
    (fun _ => rfl) s

end MacroForm

/-! ### Entry markers -/

/-- The indentation of a marker ends in front of it. -/
theorem EntryMarker.takeWhile_append_of_parse? {l : Text} {m : EntryMarker} (h : parse? l = some m)
    (u : Text) : (l ++ u).takeWhile isSpace = l.takeWhile isSpace := by
  rw [List.takeWhile_append, if_neg]
  intro hlength
  have hall : l.all isSpace = true := by
    rw [← (List.takeWhile_prefix isSpace).eq_of_length hlength]
    exact List.all_takeWhile
  rw [parse?, trim_eq_nil_iff.2 hall] at h
  cases h

/-- Entry markers are written out part by part. -/
theorem expandEntries_append {u : Text} (h : StartsLine u) (s : Text) :
    expandEntries (u ++ s) = expandEntries u ++ expandEntries s := by
  rw [expandEntries, lines_append h, List.flatMap_append]
  rfl

/-- A text of one line becomes what the line becomes. -/
theorem expandEntries_of_notMem {l : Text} (h : '\n' ∉ l) :
    expandEntries l = EntryMarker.expandLine l := by
  rcases eq_or_ne l [] with rfl | hne
  · rfl
  · rw [expandEntries, lines_of_notMem hne h, List.flatMap_singleton]

/-- **A newline at the end of a text stays there when entry markers are written out.** -/
theorem expandEntries_append_newline (s : Text) :
    expandEntries (s ++ ['\n']) = expandEntries s ++ ['\n'] := by
  obtain ⟨u, hs, hstarts, hlast⟩ := exists_append_lastLine s
  generalize lastLine s = l at hs hlast
  subst hs
  rw [List.append_assoc, expandEntries_append hstarts, expandEntries_append hstarts, List.append_assoc]
  congr 1
  have hlines : lines (l ++ ['\n']) = [l ++ ['\n']] := by
    have := lines_append_newline hlast []
    simpa [lines] using this
  have hparse : EntryMarker.parse? (l ++ ['\n']) = EntryMarker.parse? l := by
    rw [EntryMarker.parse?, EntryMarker.parse?, trim_append_spaces l (by decide)]
  rw [expandEntries, hlines, List.flatMap_singleton, expandEntries_of_notMem hlast,
    EntryMarker.expandLine, EntryMarker.expandLine, hparse]
  cases hm : EntryMarker.parse? l with
  | none => rfl
  | some m =>
    have hspaces := EntryMarker.takeWhile_append_of_parse? hm ['\n']
    have hlast : l.getLast? ≠ some '\n' := fun h => hlast (List.mem_of_getLast? h)
    simp [hspaces, hlast]

namespace Composer

/-- **A newline at the end of a program stays there while the program is finished.** -/
theorem value_finish_append_newline (composer : Composer) (flags : Flags) (s : Text) :
    (composer.finish flags (s ++ ['\n'])).value = (composer.finish flags s).value ++ ['\n'] := by
  simp only [finish, Logged.value_bind, Logged.value_pure, expandNoting, expandStructsNoting]
  rw [expandEntries_append_newline, expandConditionals_append_newline, expandStructs,
    MacroForm.replace_append_newline MacroForm.isTight_struct, substituteFlags,
    MacroForm.replace_append_newline MacroForm.isTight_flag]
  rfl

end Composer

end ShaderWeave
