import ShaderWeave.Proofs.Include.Place
import ShaderWeave.Proofs.Indentation.Braces

set_option autoImplicit false

/-!
# The state of a line

Two passes go line by line and carry along whether a block comment is open: the one that reads
directives, and the one that formats, which sees the lines without the spaces at their ends and passes
over blank ones. All other passes step over the comments of the whole text. They agree: for each line
the state is whether the line starts strictly inside a block comment of the text.

## Main definitions

* `ShaderWeave.Scan.InsideBlock` — a place strictly inside a block comment of a text.
* `ShaderWeave.Indentation.stateBehind` — the state of formatting behind lines.

## Main results

* `ShaderWeave.Scan.openBehind_iff_insideBlock` — a block comment is open behind a part of a text if the
  place is strictly inside one.
* `ShaderWeave.lineState_eq` — the two passes and the scan of the whole text agree.
-/

namespace ShaderWeave

open Text

namespace Scan

/-- **A place strictly inside a block comment of a text**, given by the bytes in front of it. -/
def InsideBlock (s : Text) (offset : Nat) : Prop :=
  ∃ front t back, lexemes s = front ++ .comment t :: back ∧ ['/', '*'] <+: t ∧
    byteSize (source front) < offset ∧ offset < byteSize (source front ++ t)

/-- A block comment without an end goes on with what follows. -/
theorem exists_throughBlockEnd_append {u v : Text} (h : occurs ['*', '/'] u = false) (hv : v ≠ []) :
    ∃ w, w ≠ [] ∧ (throughBlockEnd (u ++ v)).1 = u ++ w := by
  induction u with
  | nil =>
    refine ⟨_, ?_, rfl⟩
    obtain ⟨c, v, rfl⟩ := List.exists_cons_of_ne_nil hv
    unfold throughBlockEnd
    split <;> simp_all
  | cons c u ih =>
    rw [occurs, Bool.or_eq_false_iff] at h
    obtain ⟨w, hw, hu⟩ := ih h.2
    by_cases hend : c = '*' ∧ ∃ r, u ++ v = '/' :: r
    · -- the end of the comment is completed by what follows
      obtain ⟨rfl, r, hr⟩ := hend
      cases u with
      | nil => exact ⟨['/'], by simp, by rw [List.cons_append, hr]; rfl⟩
      | cons d u =>
        obtain rfl : d = '/' := (List.cons.inj hr).1
        simp [after?] at h
    · refine ⟨w, hw, ?_⟩
      rw [List.cons_append, throughBlockEnd, hu]
      · rfl
      · exact fun r hc hr => hend ⟨hc, r, hr⟩

/-- **A comment at the start of a text in front of a line** is closed, or it is a block comment without an
end, behind which nothing stands. -/
theorem closed_or_open_of_comment? {u t r : Text} (h : comment? u = some (t, r)) (hu : StartsLine u) :
    (∃ closed : ClosedComment, closed.text = t) ∨
      ∃ content, occurs ['*', '/'] content = false ∧ t = '/' :: '*' :: content ∧ r = [] := by
  unfold comment? at h
  split at h
  · rename_i s
    obtain ⟨rfl, rfl⟩ := Prod.mk.inj (Option.some.inj h)
    have hnewline : '\n' ∈ s := by
      rcases List.eq_nil_or_concat s with rfl | ⟨s, c, rfl⟩
      · exact absurd (hu '/' rfl) (by decide)
      · obtain rfl : c = '\n' := hu c (by simp [List.getLast?_cons])
        simp
    obtain ⟨x, y, rfl, hx⟩ := List.eq_append_cons_of_mem hnewline
    exact .inl ⟨.line x hx, by rw [throughNewline_of_notMem hx]; rfl⟩
  · rename_i s
    obtain ⟨rfl, rfl⟩ := Prod.mk.inj (Option.some.inj h)
    cases hs : occurs ['*', '/'] s with
    | true =>
      obtain ⟨x, y, rfl, hx⟩ := exists_unended_append hs
      exact .inl ⟨.block x hx, by rw [throughBlockEnd_of_occurs hx]; rfl⟩
    | false =>
      rw [throughBlockEnd_of_unended hs]
      exact .inr ⟨s, hs, rfl, rfl⟩
  · cases h

/-- **The lexemes of a text in front of a line**: the scan of the whole text finds them, or the last one
of them is a block comment without an end, which goes on behind them.

**Proof sketch.** Along the lexemes. A comment that something follows is closed. One that nothing follows
is closed too if it is a line comment, since the text ends in a newline. -/
theorem lexemes_append_of_startsLine {u v : Text} (hu : StartsLine u) (hv : v ≠ []) :
    (openBehind u = false ∧ lexemes (u ++ v) = lexemes u ++ lexemes v) ∨
      (openBehind u = true ∧ ∃ front content w back, w ≠ [] ∧
        u = source front ++ '/' :: '*' :: content ∧
        lexemes (u ++ v) = front ++ .comment ('/' :: '*' :: (content ++ w)) :: back) := by
  fun_induction lexemes u with
  | case1 => exact .inl ⟨openBehind_nil, rfl⟩
  | case2 c u t r hcomment ih =>
    have hkind := closed_or_open_of_comment? hcomment hu
    rw [(comment?_eq_append hcomment).1] at hu ⊢
    rcases hkind with ⟨closed, rfl⟩ | ⟨content, hcontent, rfl, rfl⟩
    · rw [List.append_assoc, lexemes_closed_append, openBehind_closed_append]
      rcases ih hu.of_append with ⟨hopen, hlex⟩ | ⟨hopen, front, content, w, back, hw, hr, hlex⟩
      · exact .inl ⟨hopen, by rw [hlex, List.cons_append]⟩
      · refine .inr ⟨hopen, .comment closed.text :: front, content, w, back, hw, ?_, ?_⟩
        · rw [hr, source_cons, List.append_assoc]
          rfl
        · rw [hlex, List.cons_append]
    · obtain ⟨w, hw, hthrough⟩ := exists_throughBlockEnd_append hcontent hv
      have hwhole : comment? ('/' :: '*' :: (content ++ v)) =
          some ('/' :: '*' :: (content ++ w), (throughBlockEnd (content ++ v)).2) := by
        rw [comment?, hthrough]
      rw [List.append_nil, List.cons_append, List.cons_append]
      exact .inr ⟨openFrom_true_of_unended hcontent, [], content, w, _, hw, rfl,
        lexemes_of_comment? hwhole⟩
  | case3 c u hlive ih =>
    have hlive' : comment? (c :: (u ++ v)) = none := by
      rcases eq_or_ne u [] with rfl | hne
      · obtain rfl := hu c rfl
        exact comment?_cons_eq_none (by decide) v
      · obtain ⟨d, u, rfl⟩ := List.exists_cons_of_ne_nil hne
        rw [comment?_eq_none_iff] at hlive ⊢
        simpa [after?] using hlive
    rw [List.cons_append, lexemes_of_live hlive', openBehind_live_cons hlive]
    rcases ih (hu.of_append (x := [c])) with ⟨hopen, hlex⟩ | ⟨hopen, front, content, w, back, hw, hr, hlex⟩
    · exact .inl ⟨hopen, by rw [hlex, List.cons_append]⟩
    · refine .inr ⟨hopen, .live c :: front, content, w, back, hw, ?_, ?_⟩
      · rw [hr]
        rfl
      · rw [hlex, List.cons_append]

/-- **A block comment is open behind the part of a text in front of a line** exactly if the line starts
strictly inside a block comment of the whole text. -/
theorem openBehind_iff_insideBlock {u v : Text} (hu : StartsLine u) (hv : v ≠ []) :
    openBehind u = true ↔ InsideBlock (u ++ v) (byteSize u) := by
  rcases lexemes_append_of_startsLine hu hv with ⟨hopen, hlex⟩ | ⟨hopen, front, content, w, back, hw, rfl, hlex⟩
  · -- a comment of the whole text lies in front of the line or behind its start
    rw [hopen]
    refine iff_of_false Bool.false_ne_true ?_
    rintro ⟨front, t, back, hwhole, -, hstart, hend⟩
    rw [hlex] at hwhole
    rcases List.append_eq_append_iff.1 hwhole with ⟨ls, hfront, -⟩ | ⟨ls, hfront, hrest⟩
    · rw [hfront, source_append, source_lexemes, byteSize_append] at hstart
      omega
    · cases ls with
      | nil =>
        rw [List.append_nil] at hfront
        rw [← source_lexemes u, hfront] at hstart
        exact lt_irrefl _ hstart
      | cons l ls =>
        obtain ⟨rfl, -⟩ := List.cons.inj hrest
        rw [← source_lexemes u, hfront] at hend
        simp only [source_append, source_cons, Lexeme.text, byteSize_append] at hend
        omega
  · rw [hopen]
    refine iff_of_true rfl ⟨front, _, back, hlex, ⟨content ++ w, rfl⟩, ?_, ?_⟩
    · have : 0 < byteSize ('/' :: '*' :: content) := byteSize_pos (by simp)
      rw [byteSize_append]
      omega
    · have := byteSize_pos hw
      simp only [byteSize_append, byteSize_cons]
      omega

end Scan

open Scan

namespace Indentation

/-- **The state of formatting behind lines.** -/
def stateBehind (width : Nat) (ls : List Text) : State :=
  ls.foldl (fun st l => (step width st l).2) .start

/-- **A run over lines in two parts** is the run over the first, and the run over the second from the
state behind the first. -/
theorem run_append (width : Nat) (st : State) (ls ms : List Text) :
    run width st (ls ++ ms) =
      run width st ls ++ run width (ls.foldl (fun st l => (step width st l).2) st) ms := by
  induction ls generalizing st with
  | nil => rfl
  | cons l ls ih => rw [List.cons_append, run, ih, run, List.foldl_cons, List.append_assoc]

/-- **A line leaves the comments open that it leaves open with the spaces at its ends**: the loop over its
braces ends in the state in which directives are read. -/
theorem inComment_step (width : Nat) (st : State) (l : Text) :
    (step width st l).2.inComment = commentOpenAfter st.inComment l := by
  rw [← Include.commentOpenAfter_trim, step]
  by_cases h : trim l = []
  · rw [if_pos h, h]
    cases st.inComment <;> rfl
  · rw [if_neg h, countBraces_line]

/-- The comment that is open behind lines does not depend on what was written for them. -/
theorem inComment_stateBehind (width : Nat) (ls : List Text) :
    (stateBehind width ls).inComment = ls.foldl commentOpenAfter false := by
  have hfrom : ∀ st : State, (ls.foldl (fun st l => (step width st l).2) st).inComment =
      ls.foldl commentOpenAfter st.inComment := by
    induction ls with
    | nil => exact fun _ => rfl
    | cons l ls ih =>
      intro st
      rw [List.foldl_cons, ih, inComment_step, List.foldl_cons]
  exact hfrom .start

end Indentation

/-- **The two passes and the scan of the whole text agree on the state of each line.** The first two parts
say in which state directives are read and formatting goes on from a line on, and the other two that a
block comment is open in these states exactly if the line starts strictly inside one. -/
theorem lineState_eq (width : Nat) {s : Text} {before after : List Text} {l : Text}
    (h : lines s = before ++ l :: after) :
    Include.directives s = Include.directivesFrom false before ++
        Include.directivesFrom (before.foldl commentOpenAfter false) (l :: after) ∧
      format width s = Indentation.run width .start before ++
        Indentation.run width (Indentation.stateBehind width before) (l :: after) ∧
      (before.foldl commentOpenAfter false = true ↔ InsideBlock s (byteSize before.flatten)) ∧
      ((Indentation.stateBehind width before).inComment = true ↔
        InsideBlock s (byteSize before.flatten)) := by
  have hlines : IsLines (before ++ l :: after) := h ▸ isLines_lines s
  have hs : s = before.flatten ++ (l :: after).flatten := by
    rw [← List.flatten_append, ← h, flatten_lines]
  have hne : (l :: after).flatten ≠ [] := by
    have hlast := hlines.of_append.2
    cases hlast with
    | last hl _ => simpa using hl
    | cons => simp
  have hstate : before.foldl commentOpenAfter false = true ↔ InsideBlock s (byteSize before.flatten) := by
    rw [hs, ← openBehind_iff_insideBlock (hlines.startsLine (by simp)) hne,
      ← foldl_commentOpenAfter_lines, lines_flatten hlines.of_append.1]
  refine ⟨?_, ?_, hstate, ?_⟩
  · rw [Include.directives, h, Include.directivesFrom_append]
  · rw [format, h, Indentation.run_append]
    rfl
  · rw [Indentation.inComment_stateBehind, hstate]

/-! ### Comments with slashes at their ends -/

/-- A text with a comment that `/*/` opens and `*//` closes. -/
def slashes : Text :=
  "a /*/ b\n*// c\nd".toList

/-- Its second line starts inside the comment, and its third one does not. -/
theorem lineState_eq_slashes :
    lines slashes = ["a /*/ b\n".toList] ++ "*// c\n".toList :: ["d".toList] ∧
      lines slashes = ["a /*/ b\n".toList, "*// c\n".toList] ++ "d".toList :: [] ∧
      InsideBlock slashes 8 ∧ (Indentation.stateBehind 2 ["a /*/ b\n".toList]).inComment = true ∧
      ¬InsideBlock slashes 14 := by
  have hsecond : lines slashes = ["a /*/ b\n".toList] ++ "*// c\n".toList :: ["d".toList] := by
    decide
  have hthird : lines slashes = ["a /*/ b\n".toList, "*// c\n".toList] ++ "d".toList :: [] := by
    decide
  have hinside : InsideBlock slashes 8 := (lineState_eq 2 hsecond).2.2.1.1 (by decide)
  refine ⟨hsecond, hthird, hinside, (lineState_eq 2 hsecond).2.2.2.2 hinside, fun h => ?_⟩
  exact absurd ((lineState_eq 2 hthird).2.2.1.2 h) (by decide)

end ShaderWeave
