import ShaderWeave.Proofs.Include.Insertion
import ShaderWeave.Proofs.Scan.Pieces

set_option autoImplicit false

/-!
# Open block comments

Passes that go line by line carry along whether a block comment is open. The scan of the whole text
says the same: a comment is open behind a text if the text ends in a block comment without its `*/`.
An open comment goes on as if the text started with `/*`, which is how the state in the middle of a
comment is expressed here.

## Main definitions

* `ShaderWeave.Scan.openBehind` — whether a block comment is open behind a text.
* `ShaderWeave.Scan.openFrom` — the same, given whether one is open at the start.

## Main results

* `ShaderWeave.Scan.openBehind_append` — a text in front does not matter if the lexemes keep apart.
* `ShaderWeave.Scan.openFrom_append` — the state behind a part of a line is what the pass over that
  part says.
* `ShaderWeave.Scan.CommentsClosed.complete` — closed comments and no `/` at the end make a text
  complete.
-/

namespace ShaderWeave

namespace Scan

open Text

/-- Whether a lexeme is a block comment that is not closed. -/
def Lexeme.isOpen : Lexeme → Bool
  | .comment ('/' :: '*' :: content) => !occurs ['*', '/'] content
  | _ => false

/-- **Whether a block comment is open behind a text.** -/
def openBehind (s : Text) : Bool :=
  (lexemes s).getLast?.any Lexeme.isOpen

/-- Whether a block comment is open behind a text, given whether one is open at its start. -/
def openFrom (inComment : Bool) (s : Text) : Bool :=
  openBehind (if inComment then '/' :: '*' :: s else s)

/-- No comment is open behind the empty text. -/
theorem openBehind_nil : openBehind [] = false := by
  simp [openBehind, lexemes]

/-- A text that is not empty has lexemes. -/
theorem lexemes_ne_nil {s : Text} (h : s ≠ []) : lexemes s ≠ [] := by
  intro hnil
  have := source_lexemes s
  rw [hnil] at this
  exact h this.symm

/-- **A text in front does not matter** if its lexemes and those behind it keep apart. -/
theorem openBehind_append {x z : Text} (h : lexemes (x ++ z) = lexemes x ++ lexemes z)
    (hz : z ≠ []) : openBehind (x ++ z) = openBehind z := by
  rw [openBehind, h, List.getLast?_append_of_ne_nil _ (lexemes_ne_nil hz), openBehind]

/-- A closed comment is not open. -/
theorem isOpen_closed (c : ClosedComment) : (Lexeme.comment c.text).isOpen = false := by
  cases c with
  | line => rfl
  | block content _ =>
    have : occurs ['*', '/'] (content ++ ['*', '/']) = true :=
      occurs_iff_infix.2 (List.suffix_append _ _).isInfix
    simp [ClosedComment.text, Lexeme.isOpen, this]

/-- A closed comment at the start does not matter. -/
theorem openBehind_closed_append (c : ClosedComment) (s : Text) :
    openBehind (c.text ++ s) = openBehind s := by
  cases s with
  | nil => simp [openBehind, lexemes_closed, lexemes, isOpen_closed]
  | cons d s =>
    refine openBehind_append ?_ (by simp)
    rw [lexemes_closed_append, lexemes_closed, List.singleton_append]

/-- A character outside comments at the start does not matter. -/
theorem openBehind_live_cons {c : Char} {s : Text} (h : comment? (c :: s) = none) :
    openBehind (c :: s) = openBehind s := by
  rw [openBehind, lexemes_of_live h, openBehind]
  cases hs : lexemes s with
  | nil => rfl
  | cons l ls => rw [List.getLast?_cons_cons]

/-- A block comment without a `*/` goes on to the end of the text. -/
theorem throughBlockEnd_of_unended {s : Text} (h : occurs ['*', '/'] s = false) :
    throughBlockEnd s = (s, []) := by
  induction s with
  | nil => rfl
  | cons c s ih =>
    rw [occurs, Bool.or_eq_false_iff] at h
    rw [throughBlockEnd, ih h.2]
    rintro r rfl rfl
    simp [after?] at h

/-- A block comment without an end is open. -/
theorem openFrom_true_of_unended {s : Text} (h : occurs ['*', '/'] s = false) :
    openFrom true s = true := by
  have hcomment : comment? ('/' :: '*' :: s) = some ('/' :: '*' :: s, []) := by
    rw [comment?, throughBlockEnd_of_unended h]
  rw [openFrom, if_pos rfl, openBehind, lexemes_of_comment? hcomment, lexemes]
  simp [Lexeme.isOpen, h]

/-- An end in a block comment closes it. -/
theorem openFrom_true_of_ended {u : Text} (h : occurs ['*', '/'] u = false) (s : Text) :
    openFrom true (u ++ '*' :: '/' :: s) = openBehind s := by
  have := openBehind_closed_append (.block u h) s
  simpa [ClosedComment.text, openFrom] using this

/-- The first occurrence of an end of a block comment. -/
theorem exists_unended_append {s : Text} (h : occurs ['*', '/'] s = true) :
    ∃ u r, s = u ++ '*' :: '/' :: r ∧ occurs ['*', '/'] u = false := by
  induction s with
  | nil => cases h
  | cons c s ih =>
    cases hc : after? ['*', '/'] (c :: s) with
    | some r =>
      have hs : c :: s = ['*', '/'] ++ r := after?_eq_some_iff.1 hc
      exact ⟨[], r, hs, rfl⟩
    | none =>
      rw [occurs, hc, Option.isSome_none, Bool.false_or] at h
      obtain ⟨u, r, rfl, hu⟩ := ih h
      refine ⟨c :: u, r, rfl, ?_⟩
      rw [occurs, hu, Bool.or_false, after?_eq_none_iff.2, Option.isSome_none]
      intro hstart
      refine after?_eq_none_iff.1 hc (hstart.trans ?_)
      exact ⟨'*' :: '/' :: r, by simp⟩

/-- **Inside a block comment a character that does not start its end does not matter.** -/
theorem openFrom_true_cons {c : Char} {s : Text} (h : after? ['*', '/'] (c :: s) = none) :
    openFrom true (c :: s) = openFrom true s := by
  cases hs : occurs ['*', '/'] s with
  | false =>
    rw [openFrom_true_of_unended hs, openFrom_true_of_unended]
    rw [occurs, h, hs]
    rfl
  | true =>
    obtain ⟨u, r, rfl, hu⟩ := exists_unended_append hs
    have hcu : occurs ['*', '/'] (c :: u) = false := by
      rw [occurs, hu, Bool.or_false, after?_eq_none_iff.2, Option.isSome_none]
      intro hstart
      exact after?_eq_none_iff.1 h (hstart.trans ⟨'*' :: '/' :: r, by simp⟩)
    rw [openFrom_true_of_ended hu, ← List.cons_append, openFrom_true_of_ended hcu]

/-! ### Along a line -/

/-- A newline leaves the state as it is. -/
theorem openFrom_newline (b : Bool) (s : Text) : openFrom b ('\n' :: s) = openFrom b s := by
  cases b with
  | false => exact openBehind_live_cons (comment?_cons_eq_none (by decide) s)
  | true => exact openFrom_true_cons rfl

/-- A line comment without a newline goes on to the end of the text. -/
theorem throughNewline_of_unended {u : Text} (h : '\n' ∉ u) : throughNewline u = (u, []) := by
  induction u with
  | nil => rfl
  | cons c u ih =>
    rw [List.mem_cons, not_or] at h
    simp [throughNewline, Ne.symm h.1, ih h.2]

/-- A line comment ends with its line. -/
theorem openBehind_line_append {u v : Text} (hu : '\n' ∉ u) (hv : ∀ c ∈ v.head?, c = '\n') :
    openBehind ('/' :: '/' :: (u ++ v)) = openBehind v := by
  cases v with
  | nil =>
    have hcomment : comment? ('/' :: '/' :: u) = some ('/' :: '/' :: u, []) := by
      rw [comment?, throughNewline_of_unended hu]
    rw [List.append_nil, openBehind, lexemes_of_comment? hcomment, lexemes, openBehind, lexemes]
    rfl
  | cons c v =>
    obtain rfl := hv c rfl
    have := openBehind_closed_append (.line u hu) v
    rw [show openBehind ('\n' :: v) = openBehind v from openFrom_newline false v, ← this]
    simp [ClosedComment.text]

/-- A word that stays on its line is not completed by what follows the line. -/
theorem after?_append_eq_none {pat t v : Text} (hpat : '\n' ∉ pat) (hv : ∀ c ∈ v.head?, c = '\n')
    (h : after? pat t = none) : after? pat (t ++ v) = none := by
  rw [after?_eq_none_iff] at h ⊢
  intro hstart
  cases v with
  | nil =>
    rw [List.append_nil] at hstart
    exact h hstart
  | cons c v =>
    obtain rfl := hv c rfl
    exact h (prefix_of_prefix_append_cons hpat hstart)

/-- **The state behind a part of a line is what the pass over that part says**, if the line ends
there.

**Proof sketch.** Along the pass. Inside a comment its end is found or a character does not matter; a
comment that starts is a state again; a line comment reaches to the end of the line. -/
theorem openFrom_append (b : Bool) {u v : Text} (hu : '\n' ∉ u) (hv : ∀ c ∈ v.head?, c = '\n') :
    openFrom b (u ++ v) = openFrom (commentOpenAfter b u) v := by
  unfold commentOpenAfter
  fun_induction liveLine b u with
  | case1 => rfl
  | case2 u ih =>
    rw [← ih (by simp_all)]
    exact openFrom_true_of_ended (u := []) rfl (u ++ v)
  | case3 c u hend ih =>
    have hnone : after? ['*', '/'] (c :: u) = none := by
      rw [Option.eq_none_iff_forall_ne_some]
      intro r hr
      have hs : c :: u = ['*', '/'] ++ r := after?_eq_some_iff.1 hr
      obtain ⟨hc, hu⟩ := List.cons.inj hs
      exact hend r hc hu
    rw [← ih (by simp_all), List.cons_append]
    exact openFrom_true_cons (after?_append_eq_none (by decide) hv hnone)
  | case4 u => exact openBehind_line_append (by simp_all) hv
  | case5 u ih =>
    rw [← ih (by simp_all)]
    rfl
  | case6 c u hline hblock ih =>
    have hnone : comment? (c :: u) = none := by
      rw [comment?.eq_def]
      split
      · rename_i s heq
        obtain ⟨rfl, rfl⟩ := List.cons.inj heq
        exact absurd rfl (hline s rfl)
      · rename_i s heq
        obtain ⟨rfl, rfl⟩ := List.cons.inj heq
        exact absurd rfl (hblock s rfl)
      · rfl
    rw [comment?_eq_none_iff] at hnone
    rw [← ih (by simp_all), List.cons_append]
    exact openBehind_live_cons (comment?_eq_none_iff.2
      ⟨after?_append_eq_none (by decide) hv hnone.1, after?_append_eq_none (by decide) hv hnone.2⟩)

/-! ### Closed comments -/

/-- A comment that something follows is closed. -/
theorem exists_closed_of_comment? {s t r : Text} (h : comment? s = some (t, r)) (hr : r ≠ []) :
    ∃ c : ClosedComment, c.text = t := by
  unfold comment? at h
  split at h
  · rename_i s
    obtain ⟨rfl, rfl⟩ := Prod.mk.inj (Option.some.inj h)
    by_cases hs : '\n' ∈ s
    · obtain ⟨u, v, rfl, hu⟩ := List.eq_append_cons_of_mem hs
      exact ⟨.line u hu, by rw [throughNewline_of_notMem hu]; rfl⟩
    · exact absurd (congrArg Prod.snd (throughNewline_of_unended hs)) hr
  · rename_i s
    obtain ⟨rfl, rfl⟩ := Prod.mk.inj (Option.some.inj h)
    cases hs : occurs ['*', '/'] s with
    | true =>
      obtain ⟨u, v, rfl, hu⟩ := exists_unended_append hs
      exact ⟨.block u hu, by rw [throughBlockEnd_of_occurs hu]; rfl⟩
    | false => exact absurd (congrArg Prod.snd (throughBlockEnd_of_unended hs)) hr
  · cases h

/-- No comment starts at a text if none starts at it when more follows. -/
theorem comment?_of_append {u v : Text} (h : comment? (u ++ v) = none) : comment? u = none := by
  rw [comment?_eq_none_iff, after?_eq_none_iff, after?_eq_none_iff] at h ⊢
  exact ⟨fun hp => h.1 (hp.trans (List.prefix_append u v)),
    fun hp => h.2 (hp.trans (List.prefix_append u v))⟩

/-- A character at which no comment starts keeps comments closed. -/
theorem CommentsClosed.live_cons {c : Char} {u : Text} (hu : CommentsClosed u)
    (h : comment? (c :: u) = none) : CommentsClosed (c :: u) := by
  intro t ht
  rw [lexemes_of_live h] at ht
  exact hu t (by simpa using ht)

/-- **Lexemes in front of others** are those of the text that they make up, and the comments among them
are closed. -/
theorem lexemes_source {s : Text} {ls ms : List Lexeme} (h : lexemes s = ls ++ ms) (hne : ms ≠ []) :
    lexemes (source ls) = ls ∧ CommentsClosed (source ls) := by
  have hboth : lexemes (source ls) = ls ∧ ∀ t, .comment t ∈ ls → ∃ c : ClosedComment, c.text = t := by
    induction ls generalizing s with
    | nil => simp [lexemes]
    | cons l ls ih =>
      rw [List.cons_append] at h
      cases l with
      | comment t =>
        obtain ⟨r, hcomment, hr⟩ := comment?_of_lexemes_eq h
        obtain ⟨closed, rfl⟩ := exists_closed_of_comment? hcomment (by
          rintro rfl
          simp [lexemes, hne] at hr)
        refine ⟨by rw [source_cons, Lexeme.text, lexemes_closed_append, (ih hr).1], fun t ht => ?_⟩
        rcases List.mem_cons.1 ht with heq | ht
        · cases heq
          exact ⟨closed, rfl⟩
        · exact (ih hr).2 t ht
      | live c =>
        obtain ⟨r, rfl, hlive, hr⟩ := eq_cons_of_lexemes_eq h
        have hrest : r = source ls ++ source ms := by
          rw [← source_append, ← hr, source_lexemes]
        rw [hrest, ← List.cons_append] at hlive
        refine ⟨?_, fun t ht => (ih hr).2 t (by simpa using ht)⟩
        rw [source_cons, Lexeme.text, List.singleton_append,
          lexemes_of_live (comment?_of_append hlive), (ih hr).1]
  exact ⟨hboth.1, fun t ht => hboth.2 t (hboth.1 ▸ ht)⟩

/-! ### Complete texts -/

/-- **Closed comments and no `/` at the end make a text complete.** -/
theorem CommentsClosed.complete {u : Text} (h : CommentsClosed u)
    (hend : (lexemes u).getLast? ≠ some (.live '/')) : Complete u := by
  fun_induction lexemes u with
  | case1 => exact complete_nil
  | case2 c u t r hcomment ih =>
    obtain ⟨closed, rfl⟩ := h t (by simp [lexemes_of_comment? hcomment])
    have hrest : CommentsClosed r := fun t ht =>
      h t (by rw [lexemes_of_comment? hcomment]; exact List.mem_cons_of_mem _ ht)
    rw [(comment?_eq_append hcomment).1]
    refine (complete_closed closed).append (ih hrest fun hlast => hend ?_)
    rw [List.getLast?_cons, hlast]
    rfl
  | case3 c u hlive ih =>
    have hrest : CommentsClosed u := fun t ht =>
      h t (by rw [lexemes_of_live hlive]; exact List.mem_cons_of_mem _ ht)
    rcases eq_or_ne u [] with rfl | hne
    · refine complete_singleton ?_
      rintro rfl
      exact hend (by simp [lexemes])
    · have hu := ih hrest fun hlast => hend (by rw [List.getLast?_cons, hlast]; rfl)
      intro s
      have hlive' : comment? (c :: (u ++ s)) = none := by
        obtain ⟨d, u, rfl⟩ := List.exists_cons_of_ne_nil hne
        rw [comment?_eq_none_iff] at hlive ⊢
        simpa [after?] using hlive
      rw [List.cons_append, lexemes_of_live hlive', lexemes_of_live hlive, hu, List.cons_append]

/-- The comments of a complete text are closed. -/
theorem Complete.commentsClosed {u : Text} (h : Complete u) : CommentsClosed u := by
  have := (lexemes_source (h ['x']) (lexemes_ne_nil (by simp))).2
  rwa [source_lexemes] at this

/-- Closed comments stay closed behind a complete text. -/
theorem Complete.append_commentsClosed {x u : Text} (hx : Complete x) (hu : CommentsClosed u) :
    CommentsClosed (x ++ u) := by
  intro t ht
  rw [hx, List.mem_append] at ht
  exact ht.elim (hx.commentsClosed t) (hu t)

/-- A complete text that starts with neither `/` nor `*` is so behind closed comments. -/
theorem CommentsClosed.append_complete {u v : Text} {c : Char} (hu : CommentsClosed u)
    (hslash : c ≠ '/') (hstar : c ≠ '*') (hv : Complete (c :: v)) : Complete (u ++ c :: v) := by
  intro s
  rw [List.append_assoc, List.cons_append, lexemes_append_cons hu hslash hstar,
    lexemes_append_cons hu hslash hstar, ← List.cons_append, hv, List.append_assoc]

end Scan

end ShaderWeave
