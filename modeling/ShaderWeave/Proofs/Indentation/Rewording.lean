import ShaderWeave.Proofs.Indentation.Layout
import ShaderWeave.Proofs.Scan.Rewording

set_option autoImplicit false

/-!
# Formatting and the words of comments

Two texts that differ in what their comments say are formatted in lockstep: the states behind their
lines agree in the depth, in the comment state, and in whether a blank line was seen. They need not agree
in whether a blank line would stand at an edge. For this the last character of a line is looked at, also
where it belongs to a comment.

## Main definitions

* `ShaderWeave.Indentation.EndAlike` — lines that both open a scope at their end, or neither does.
* `ShaderWeave.Indentation.State.Agrees`, `ShaderWeave.Indentation.Entry.Agrees` — states and entries
  that are the same but for edges and the words of comments.
* `ShaderWeave.Indentation.BlankAlike` — lines that end alike in front of blank ones.

## Main results

* `ShaderWeave.Indentation.agrees_outlineFrom` — the outlines of lines with the same live parts.
* `ShaderWeave.format_reworded` — the formatted text of a text with reworded comments.
-/

namespace ShaderWeave

open Text Scan

namespace Indentation

/-- **Lines that both end in an opening brace**, or neither does, spaces aside. -/
def EndAlike (l m : Text) : Prop :=
  (trim l).getLast? = some '{' ↔ (trim m).getLast? = some '{'

/-- Whether two lines end alike can be computed. -/
instance decidableEndAlike (l m : Text) : Decidable (EndAlike l m) :=
  inferInstanceAs (Decidable ((trim l).getLast? = some '{' ↔ (trim m).getLast? = some '{'))

/-- **States that agree**, where `edges` holds also in whether a blank line that was seen stands at an
edge. -/
structure State.Agrees (edges : Prop) (st su : State) : Prop where
  depth : st.depth = su.depth
  inComment : st.inComment = su.inComment
  blankSeen : st.blankSeen = su.blankSeen
  atEdge : edges → st.blankSeen = true → st.atEdge = su.atEdge

/-- **Entries that agree**: one level, texts that differ in exchanged characters, and the blank line before
them where `edges` holds. -/
structure Entry.Agrees (edges : Prop) (e f : Entry) : Prop where
  gap : edges → e.gap = f.gap
  level : e.level = f.level
  text : Resembles e.text f.text

variable {edges : Prop} {st su : State} {l m : Text}

/-! ### One line -/

/-- Lines with the same live parts have entries that agree. -/
theorem agrees_entryOf? (hst : st.Agrees edges su) (h : Resembles (trim l) (trim m))
    (hlive : (liveLine st.inComment (trim l)).1 = (liveLine st.inComment (trim m)).1) :
    Option.Rel (Entry.Agrees edges) (entryOf? st l) (entryOf? su m) := by
  have hlive' : st.live l = su.live m := by rw [State.live, hlive, State.live, hst.inComment]
  by_cases hl : trim l = []
  · have hm := h.eq_nil_iff.1 hl
    rw [entryOf?_of_blank hl, entryOf?_of_blank hm]
    exact .none
  · have hm := hl ∘ h.eq_nil_iff.2
    rw [entryOf?, if_neg hl, entryOf?, if_neg hm]
    refine .some ⟨fun hedges => ?_, ?_, h⟩
    · cases hseen : st.blankSeen with
      | false => simp only [← hst.blankSeen, hseen, Bool.false_and]
      | true => simp only [← hst.blankSeen, hseen, hst.atEdge hedges hseen, hlive']
    · simp only [hst.inComment, hst.depth, hlive']

/-- Behind lines with the same live parts the states agree, if they stand alike at an edge before a blank
line. -/
theorem agrees_next (hst : st.Agrees edges su) (h : Resembles (trim l) (trim m))
    (hlive : (liveLine st.inComment (trim l)).1 = (liveLine st.inComment (trim m)).1)
    (hedge : edges → trim l = [] → st.atEdge = su.atEdge) : (next st l).Agrees edges (next su m) := by
  have hlive' : st.live l = su.live m := by rw [State.live, hlive, State.live, hst.inComment]
  by_cases hl : trim l = []
  · have hm := h.eq_nil_iff.1 hl
    rw [next_of_blank hl, next_of_blank hm]
    exact ⟨hst.depth, hst.inComment, rfl, fun hedges _ => hedge hedges hl⟩
  · have hm := hl ∘ h.eq_nil_iff.2
    rw [next_of_written hl, next_of_written hm]
    refine ⟨?_, ?_, rfl, fun _ hseen => absurd hseen Bool.false_ne_true⟩
    · simp only [hst.depth, hlive']
    · simp only [← hst.inComment]
      exact (liveLine_resembles h st.inComment).2

/-- Behind lines that end alike the states stand alike at an edge. -/
theorem atEdge_next (h : Resembles (trim l) (trim m)) (hedge : trim l = [] → st.atEdge = su.atEdge)
    (hend : EndAlike l m) : (next st l).atEdge = (next su m).atEdge := by
  by_cases hl : trim l = []
  · rw [next_of_blank hl, next_of_blank (h.eq_nil_iff.1 hl)]
    exact hedge hl
  · rw [next_of_written hl, next_of_written (hl ∘ h.eq_nil_iff.2)]
    exact decide_eq_decide.2 hend

/-! ### All lines -/

/-- **Lines that end alike in front of blank ones**, given in pairs. -/
def BlankAlike (ps : List (Text × Text)) : Prop :=
  ps.IsChain fun p q => trim q.1 = [] → EndAlike p.1 p.2

/-- Whether lines end alike in front of blank ones can be computed. -/
instance decidableBlankAlike (ps : List (Text × Text)) : Decidable (BlankAlike ps) :=
  inferInstanceAs (Decidable (ps.IsChain fun p q => trim q.1 = [] → EndAlike p.1 p.2))

/-- **The outlines of lines with the same live parts** agree. -/
theorem agrees_outlineFrom {b : Bool} {ls ms : List Text} (h : RewordedLines b ls ms)
    (hst : st.Agrees edges su) (hb : st.inComment = b)
    (hedge : edges → ∀ l ∈ ls.head?, trim l = [] → st.atEdge = su.atEdge)
    (hblank : edges → BlankAlike (ls.zip ms)) :
    List.Forall₂ (Entry.Agrees edges) (outlineFrom st ls) (outlineFrom su ms) := by
  induction h generalizing st su with
  | nil => exact .nil
  | @cons b l m ls ms h hlive hls ih =>
    subst hb
    have hfirst : edges → trim l = [] → st.atEdge = su.atEdge := fun hedges => hedge hedges l rfl
    have hentries : List.Forall₂ (Entry.Agrees edges) (entryOf? st l).toList (entryOf? su m).toList := by
      have hentry := agrees_entryOf? hst h hlive
      generalize entryOf? st l = e at hentry
      generalize entryOf? su m = f at hentry
      cases hentry with
      | none => exact .nil
      | some hef => exact .cons hef .nil
    have hnext : edges → ∀ k ∈ ls.head?, trim k = [] → (next st l).atEdge = (next su m).atEdge := by
      intro hedges k hk hkblank
      refine atEdge_next h (hfirst hedges) ?_
      cases hls with
      | nil => cases hk
      | cons =>
        obtain rfl := Option.some.inj hk
        exact (List.isChain_cons_cons.1 (hblank hedges)).1 hkblank
    rw [outlineFrom, outlineFrom]
    exact List.rel_append hentries (ih (agrees_next hst h hlive hfirst) (inComment_step 0 st l) hnext
      fun hedges => (hblank hedges).tail)

/-! ### What is written -/

/-- The lines of an outline that are not blank. -/
theorem filter_written {es : List Entry} (h : ∀ e ∈ es, e.IsLine) (width : Nat) :
    (written width es).filter (fun l => trim l ≠ []) = es.map (Entry.line width) := by
  induction es with
  | nil => rfl
  | cons e es ih =>
    have hgap : (if e.gap then [['\n']] else []).filter (fun l : Text => trim l ≠ []) = [] := by
      cases e.gap <;> decide
    have hline := (h e List.mem_cons_self).trim_line_ne_nil width
    rw [written_cons, List.filter_append, Entry.lines, List.filter_append, hgap, List.nil_append,
      List.filter_cons_of_pos (by simpa using hline), ih fun f hf => h f (List.mem_cons_of_mem _ hf)]
    rfl

/-- The lines that are written for entries that agree resemble each other. -/
theorem Entry.Agrees.line {e f : Entry} (h : e.Agrees edges f) (width : Nat) :
    Resembles (e.line width) (f.line width) := by
  rw [Entry.line, Entry.line, h.level]
  exact List.rel_append (Resembles.refl _) (List.rel_append h.text (Resembles.refl _))

/-- Outlines that agree, also at edges, are written alike. -/
theorem flatten_written_resembles {es fs : List Entry}
    (h : List.Forall₂ (Entry.Agrees True) es fs) (width : Nat) :
    Resembles (written width es).flatten (written width fs).flatten := by
  induction h with
  | nil => exact .nil
  | cons hef _ ih =>
    rw [written_cons, written_cons, List.flatten_append, List.flatten_append, Entry.lines, Entry.lines,
      List.flatten_append, List.flatten_append, hef.gap trivial, List.flatten_singleton,
      List.flatten_singleton]
    exact List.rel_append (List.rel_append (Resembles.refl _) (hef.line width)) ih

end Indentation

open Indentation

/-- **The formatted text of a text with reworded comments.** Where characters inside comments are exchanged
that are neither spaces nor part of the delimiters of comments (a brace for a letter, say), the same lines
are written at the same indentation, each with the words of its own text. The blank lines between them
are the same too if no line in front of a blank one gains or loses an opening brace at its end: the last
character of a line says whether a blank line may follow, also if it belongs to a comment. -/
theorem format_reworded (width : Nat) {s : Text} {ls : List Lexeme}
    (h : List.Forall₂ Lexeme.Reworded (lexemes s) ls) :
    List.Forall₂ Resembles ((lines (format width s)).filter (fun l => trim l ≠ []))
        ((lines (format width (source ls))).filter (fun l => trim l ≠ [])) ∧
      content (lines (format width s)) = content (lines s) ∧
      content (lines (format width (source ls))) = content (lines (source ls)) ∧
      (BlankAlike ((lines s).zip (lines (source ls))) →
        Resembles (format width s) (format width (source ls))) := by
  have hlines := rewordedLines_lines h
  have hstart : ∀ edges : Prop, State.Agrees edges .start .start :=
    fun _ => ⟨rfl, rfl, rfl, fun _ _ => rfl⟩
  refine ⟨?_, content_format width s, content_format width (source ls), fun hblank => ?_⟩
  · have hagrees := agrees_outlineFrom hlines (hstart False) rfl (fun _ _ _ _ => rfl) False.elim
    rw [lines_format, lines_format, outline, outline,
      filter_written (isLine_of_mem_outlineFrom (newline_notMem_trim_lines s) _),
      filter_written (isLine_of_mem_outlineFrom (newline_notMem_trim_lines (source ls)) _)]
    exact List.forall₂_map_left_iff.2
      (List.forall₂_map_right_iff.2 (hagrees.imp fun e f hef => hef.line width))
  · have hagrees := agrees_outlineFrom hlines (hstart True) rfl (fun _ _ _ _ => rfl) fun _ => hblank
    rw [format, run_eq, format, run_eq]
    exact flatten_written_resembles hagrees width

/-- A function with braces in comments. -/
def glow : Text :=
  "fn glow() \x7b // \x7bwarm\x7d\n\n  lit(); // \x7b\n  /* \x7d\n */\n\x7d".toList

/-- The same function with letters in their place. -/
def glowReworded : Text :=
  "fn glow() \x7b // xwarmx\n\n  lit(); // x\n  /* x\n */\n\x7d".toList

/-- The two are formatted alike. -/
theorem format_reworded_glow :
    List.Forall₂ Lexeme.Reworded (lexemes glow) (lexemes glowReworded) ∧
      BlankAlike ((lines glow).zip (lines glowReworded)) ∧
      Resembles (format 2 glow) (format 2 glowReworded) := by
  have h : List.Forall₂ Lexeme.Reworded (lexemes glow) (lexemes glowReworded) := by decide +kernel
  have hblank : BlankAlike ((lines glow).zip (lines (source (lexemes glowReworded)))) := by
    rw [source_lexemes]
    decide +kernel
  have halike := (format_reworded 2 h).2.2.2 hblank
  rw [source_lexemes] at hblank halike
  exact ⟨h, hblank, halike⟩

/-- **A brace at the end of a comment takes the blank line behind it**, which stays if the brace is exchanged
for a letter. -/
theorem blank_line_behind_comment :
    List.Forall₂ Lexeme.Reworded (lexemes "a // \x7b\n\nb".toList) (lexemes "a // x\n\nb".toList) ∧
      format 2 "a // \x7b\n\nb".toList = "a // \x7b\nb\n".toList ∧
      format 2 "a // x\n\nb".toList = "a // x\n\nb\n".toList := by
  decide +kernel

end ShaderWeave
