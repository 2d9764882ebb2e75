import Mathlib.Data.List.Forall2
import ShaderWeave.Proofs.Scan.LiveText

set_option autoImplicit false

/-!
# Reworded comments

What a comment says does not matter to where it ends, as long as the characters that are exchanged
belong to no delimiter and are no spaces. A text with reworded comments has the reworded comments for
its own, and the same live text on each line.

## Main definitions

* `ShaderWeave.Text.Resembles` — texts that differ in exchanged characters.
* `ShaderWeave.Scan.Lexeme.Reworded` — a comment with exchanged characters, or the same character
  outside comments.
* `ShaderWeave.Scan.RewordedLines` — lines whose live parts are the same.

## Main results

* `ShaderWeave.Scan.lexemes_source_of_reworded` — the lexemes of a text with reworded comments.
* `ShaderWeave.Scan.rewordedLines_lines` — its lines.
-/

namespace ShaderWeave

namespace Text

/-! ### Characters that may be exchanged -/

/-- **Whether a character is neutral**: no space, and no part of the delimiters of comments. Letters and
braces are. -/
def isNeutral (c : Char) : Bool :=
  !isSpace c && c ≠ '/' && c ≠ '*'

/-- **Characters that may be exchanged**: neutral ones, each for any other. -/
def Interchangeable (c d : Char) : Prop :=
  c = d ∨ isNeutral c = true ∧ isNeutral d = true

/-- Whether two characters may be exchanged can be computed. -/
instance decidableInterchangeable (c d : Char) : Decidable (Interchangeable c d) :=
  inferInstanceAs (Decidable (c = d ∨ isNeutral c = true ∧ isNeutral d = true))

/-- **Texts that differ in exchanged characters** only, place by place. -/
abbrev Resembles (s t : Text) : Prop :=
  List.Forall₂ Interchangeable s t

/-- A character may stand for itself. -/
theorem Interchangeable.refl (c : Char) : Interchangeable c c :=
  .inl rfl

/-- A text resembles itself. -/
theorem Resembles.refl (s : Text) : Resembles s s :=
  List.forall₂_same.2 fun c _ => .refl c

/-- A character that is not neutral stays. -/
theorem Interchangeable.eq_iff {c d x : Char} (h : Interchangeable c d) (hx : isNeutral x = false) :
    c = x ↔ d = x := by
  rcases h with rfl | ⟨hc, hd⟩
  · exact .rfl
  · constructor <;> rintro rfl
    · rw [hx] at hc
      cases hc
    · rw [hx] at hd
      cases hd

/-- A neutral character is no space. -/
theorem isSpace_eq_false_of_isNeutral {c : Char} (h : isNeutral c = true) : isSpace c = false := by
  simp only [isNeutral, Bool.and_eq_true, Bool.not_eq_true'] at h
  exact h.1.1

/-- Spaces are exchanged for nothing. -/
theorem Interchangeable.isSpace_eq {c d : Char} (h : Interchangeable c d) : isSpace c = isSpace d := by
  rcases h with rfl | ⟨hc, hd⟩
  · rfl
  · rw [isSpace_eq_false_of_isNeutral hc, isSpace_eq_false_of_isNeutral hd]

/-- A space stands only for itself. -/
theorem Interchangeable.eq_of_isSpace {c d : Char} (h : Interchangeable c d) (hc : isSpace c = true) :
    c = d := by
  rcases h with rfl | ⟨hneutral, -⟩
  · rfl
  · rw [isSpace_eq_false_of_isNeutral hneutral] at hc
    cases hc

/-! ### Texts with exchanged characters -/

variable {s t : Text}

/-- Texts that resemble each other still do without the characters at their start that a test takes, if
the test does not tell exchanged characters apart. -/
theorem Resembles.dropWhile {p : Char → Bool} (hp : ∀ c d, Interchangeable c d → p c = p d)
    (h : Resembles s t) : Resembles (s.dropWhile p) (t.dropWhile p) := by
  induction h with
  | nil => exact .nil
  | @cons c d s t hcd h ih =>
    rw [List.dropWhile_cons, List.dropWhile_cons, hp c d hcd]
    split
    · exact ih
    · exact .cons hcd h

/-- Spaces stand at the same ends. -/
theorem Resembles.trim (h : Resembles s t) : Resembles (trim s) (trim t) := by
  have hspace : ∀ c d, Interchangeable c d → isSpace c = isSpace d := fun _ _ hcd => hcd.isSpace_eq
  rw [Text.trim, Text.trim, trimEnd, trimEnd]
  exact List.rel_reverse (Resembles.dropWhile hspace (List.rel_reverse (h.dropWhile hspace)))

/-- A text that resembles the empty one is empty. -/
theorem Resembles.eq_nil_iff (h : Resembles s t) : s = [] ↔ t = [] := by
  cases h <;> simp

/-- Texts with the same characters but for spaces are equal if their spaces stand in the same places. -/
theorem Resembles.eq_of_filter (h : Resembles s t)
    (hfilter : s.filter (!isSpace ·) = t.filter (!isSpace ·)) : s = t := by
  induction h with
  | nil => rfl
  | @cons c d s t hcd h ih =>
    cases hc : isSpace c with
    | true =>
      obtain rfl := hcd.eq_of_isSpace hc
      rw [List.filter_cons_of_neg (by simp [hc]), List.filter_cons_of_neg (by simp [hc])] at hfilter
      rw [ih hfilter]
    | false =>
      have hd : isSpace d = false := by rw [← hcd.isSpace_eq, hc]
      rw [List.filter_cons_of_pos (by simp [hc]), List.filter_cons_of_pos (by simp [hd]),
        List.cons.injEq] at hfilter
      rw [hfilter.1, ih hfilter.2]

/-- Texts that resemble each other still do without their spaces. -/
theorem Resembles.filter_isSpace (h : Resembles s t) :
    Resembles (s.filter (!isSpace ·)) (t.filter (!isSpace ·)) :=
  List.rel_filter (p := (!isSpace · : Char → Bool)) (q := (!isSpace · : Char → Bool))
    (fun _ _ hcd => by simp [hcd.isSpace_eq]) h

/-- **Lines end in the same places.** -/
theorem Resembles.lines (h : Resembles s t) : List.Forall₂ Resembles (lines s) (lines t) := by
  induction h with
  | nil => exact .nil
  | @cons c d s t hcd h ih =>
    rw [Text.lines, Text.lines]
    by_cases hc : c = '\n'
    · have hd := (hcd.eq_iff (x := '\n') (by decide)).1 hc
      rw [if_pos hc, if_pos hd]
      exact .cons (.cons hcd .nil) ih
    · have hd : d ≠ '\n' := fun hd => hc ((hcd.eq_iff (x := '\n') (by decide)).2 hd)
      rw [if_neg hc, if_neg hd]
      generalize Text.lines s = ls at ih
      generalize Text.lines t = ms at ih
      cases ih with
      | nil => exact .cons (.cons hcd .nil) .nil
      | cons hl hls => exact .cons (.cons hcd hl) hls

end Text

namespace Scan

open Text

variable {s t : Text}

/-! ### Where comments end -/

/-- Texts that resemble each other are cut alike at their first newline. -/
theorem throughNewline_resembles (h : Resembles s t) :
    Resembles (throughNewline s).1 (throughNewline t).1 ∧
      Resembles (throughNewline s).2 (throughNewline t).2 := by
  induction h with
  | nil => exact ⟨.nil, .nil⟩
  | @cons c d s t hcd h ih =>
    rw [throughNewline, throughNewline]
    simp only [hcd.eq_iff (x := '\n') (by decide)]
    split
    · exact ⟨.cons hcd .nil, h⟩
    · exact ⟨.cons hcd ih.1, ih.2⟩

/-- Two characters that are not neutral start both texts or neither. -/
theorem starts_iff_of_resembles {c d x y : Char} {s t : Text} (hcd : Interchangeable c d)
    (h : Resembles s t) (hx : isNeutral x = false) (hy : isNeutral y = false) :
    (c = x ∧ ∃ r, s = y :: r) ↔ (d = x ∧ ∃ r, t = y :: r) := by
  rw [hcd.eq_iff hx]
  cases h with
  | nil => simp
  | cons hef _ => simp [hef.eq_iff hy]

/-- Texts that resemble each other are cut alike at the end of a block comment. -/
theorem throughBlockEnd_resembles (h : Resembles s t) :
    Resembles (throughBlockEnd s).1 (throughBlockEnd t).1 ∧
      Resembles (throughBlockEnd s).2 (throughBlockEnd t).2 := by
  induction h with
  | nil => exact ⟨.nil, .nil⟩
  | @cons c d s t hcd h ih =>
    have hstarts := starts_iff_of_resembles hcd h (x := '*') (y := '/') (by decide) (by decide)
    by_cases hc : c = '*' ∧ ∃ r, s = '/' :: r
    · obtain ⟨rfl, r', rfl⟩ := hstarts.1 hc
      obtain ⟨rfl, r, rfl⟩ := hc
      cases h with
      | cons _ h => exact ⟨.cons (.refl _) (.cons (.refl _) .nil), h⟩
    · have hd := hc ∘ hstarts.2
      rw [throughBlockEnd.eq_3 _ _ fun r h₁ h₂ => hc ⟨h₁, r, h₂⟩,
        throughBlockEnd.eq_3 _ _ fun r h₁ h₂ => hd ⟨h₁, r, h₂⟩]
      exact ⟨.cons hcd ih.1, ih.2⟩

/-- **Comments start and end in the same places.** -/
theorem comment?_resembles (h : Resembles s t) :
    Option.Rel (fun p q => Resembles p.1 q.1 ∧ Resembles p.2 q.2) (comment? s) (comment? t) := by
  cases h with
  | nil => exact .none
  | @cons c d s t hcd h =>
    have hline := starts_iff_of_resembles hcd h (x := '/') (y := '/') (by decide) (by decide)
    have hblock := starts_iff_of_resembles hcd h (x := '/') (y := '*') (by decide) (by decide)
    by_cases hc : c = '/' ∧ ∃ r, s = '/' :: r
    · obtain ⟨rfl, r', rfl⟩ := hline.1 hc
      obtain ⟨rfl, r, rfl⟩ := hc
      cases h with
      | cons _ h =>
        obtain ⟨hfirst, hsecond⟩ := throughNewline_resembles h
        exact .some ⟨.cons (.refl _) (.cons (.refl _) hfirst), hsecond⟩
    · by_cases hb : c = '/' ∧ ∃ r, s = '*' :: r
      · obtain ⟨rfl, r', rfl⟩ := hblock.1 hb
        obtain ⟨rfl, r, rfl⟩ := hb
        cases h with
        | cons _ h =>
          obtain ⟨hfirst, hsecond⟩ := throughBlockEnd_resembles h
          exact .some ⟨.cons (.refl _) (.cons (.refl _) hfirst), hsecond⟩
      · have hd := hc ∘ hline.2
        have he := hb ∘ hblock.2
        rw [comment?.eq_3 _ (fun r heq => hc (by simp_all)) (fun r heq => hb (by simp_all)),
          comment?.eq_3 _ (fun r heq => hd (by simp_all)) (fun r heq => he (by simp_all))]
        exact .none

/-! ### Lexemes -/

/-- **A lexeme with its comment reworded**: exchanged characters in a comment, or the same character
outside comments. -/
def Lexeme.Reworded : Lexeme → Lexeme → Prop
  | .live c, .live d => c = d
  | .comment t, .comment u => Resembles t u
  | _, _ => False

/-- Whether a lexeme is another one reworded can be computed. -/
instance decidableReworded : (k l : Lexeme) → Decidable (k.Reworded l)
  | .live c, .live d => inferInstanceAs (Decidable (c = d))
  | .comment t, .comment u => inferInstanceAs (Decidable (List.Forall₂ Interchangeable t u))
  | .live _, .comment _ => .isFalse not_false
  | .comment _, .live _ => .isFalse not_false

/-- The texts of reworded lexemes resemble each other. -/
theorem source_resembles {ks ls : List Lexeme} (h : List.Forall₂ Lexeme.Reworded ks ls) :
    Resembles (source ks) (source ls) := by
  induction h with
  | nil => exact .nil
  | @cons k l ks ls hkl _ ih =>
    rw [source_cons, source_cons]
    refine List.rel_append ?_ ih
    cases k <;> cases l <;> simp only [Lexeme.Reworded] at hkl
    · subst hkl
      exact Resembles.refl _
    · exact hkl

/-- **The lexemes of a text with reworded comments** are the reworded ones.

**Proof sketch.** Along the lexemes of the text. The comment at the start of the other text has the length
of the one that it is exchanged for, so it is that one; and none starts at a character where none did. -/
theorem lexemes_source_of_reworded {ls : List Lexeme}
    (h : List.Forall₂ Lexeme.Reworded (lexemes s) ls) : lexemes (source ls) = ls := by
  fun_induction lexemes s generalizing ls with
  | case1 =>
    cases h
    rw [source_nil, lexemes]
  | case2 c s t r hcomment ih =>
    rw [List.forall₂_cons_left_iff] at h
    obtain ⟨l, ls, hl, hls, rfl⟩ := h
    cases l with
    | live d => exact hl.elim
    -- the other comment is as long, so it is cut off at the same place
    | comment u =>
      have hu : Resembles t u := hl
      have hrest : Resembles r (source ls) := by
        rw [← source_lexemes r]
        exact source_resembles hls
      have hread : comment? (u ++ source ls) = some (u, source ls) := by
        have happend : Resembles (t ++ r) (u ++ source ls) := List.rel_append hu hrest
        have hboth := comment?_resembles happend
        rw [← (comment?_eq_append hcomment).1, hcomment] at hboth
        cases hother : comment? (u ++ source ls) with
        | none =>
          rw [hother] at hboth
          cases hboth
        | some p =>
          rw [hother] at hboth
          cases hboth with
          | some hp =>
            have hlength : u.length = p.1.length := hu.length_eq.symm.trans hp.1.length_eq
            obtain ⟨hfirst, hsecond⟩ := List.append_inj (comment?_eq_append hother).1 hlength
            rw [hfirst, hsecond]
      rw [source_cons, Lexeme.text, lexemes_of_comment? hread, ih hls]
  | case3 c s hlive ih =>
    rw [List.forall₂_cons_left_iff] at h
    obtain ⟨l, ls, hl, hls, rfl⟩ := h
    cases l with
    | comment u => exact hl.elim
    | live d =>
      obtain rfl : c = d := hl
      have hrest : Resembles s (source ls) := by
        rw [← source_lexemes s]
        exact source_resembles hls
      have hboth := comment?_resembles (List.Forall₂.cons (.refl c) hrest)
      rw [hlive] at hboth
      -- were there a comment in the other text, there would be one here
      have hnone : comment? (c :: source ls) = none := by
        cases hother : comment? (c :: source ls) with
        | none => rfl
        | some p =>
          rw [hother] at hboth
          cases hboth
      rw [source_cons, Lexeme.text, List.singleton_append, lexemes_of_live hnone, ih hls]

/-- Rewording leaves what stands outside comments. -/
theorem Lexeme.Reworded.live?_eq {k l : Lexeme} (h : k.Reworded l) : k.live? = l.live? := by
  cases k <;> cases l <;> simp only [Lexeme.Reworded] at h
  · rw [h]
  · rfl

/-- Reworded comments leave the live text as it is. -/
theorem liveText_of_reworded {ks ls : List Lexeme} (h : List.Forall₂ Lexeme.Reworded ks ls) :
    liveText ks = liveText ls := by
  induction h with
  | nil => rfl
  | cons hkl _ ih =>
    unfold liveText at ih ⊢
    rw [List.filterMap_cons, List.filterMap_cons, ih, hkl.live?_eq]

/-! ### Lines -/

/-- The pass over a line finds live text in the same places, and leaves the same comments open. -/
theorem liveLine_resembles (h : Resembles s t) (b : Bool) :
    Resembles (liveLine b s).1 (liveLine b t).1 ∧ (liveLine b s).2 = (liveLine b t).2 := by
  induction hn : s.length using Nat.strong_induction_on generalizing s t b with
  | _ n ih =>
  subst hn
  cases h with
  | nil => exact ⟨.nil, rfl⟩
  | @cons c d s t hcd h =>
    have hlt : s.length < (c :: s).length := Nat.lt_succ_self _
    have hclose := starts_iff_of_resembles hcd h (x := '*') (y := '/') (by decide) (by decide)
    have hline := starts_iff_of_resembles hcd h (x := '/') (y := '/') (by decide) (by decide)
    have hblock := starts_iff_of_resembles hcd h (x := '/') (y := '*') (by decide) (by decide)
    cases b with
    | true =>
      by_cases hc : c = '*' ∧ ∃ r, s = '/' :: r
      · obtain ⟨rfl, r', rfl⟩ := hclose.1 hc
        obtain ⟨rfl, r, rfl⟩ := hc
        cases h with
        | cons _ h => exact ih _ (by simp only [List.length_cons]; omega) h false rfl
      · have hd := hc ∘ hclose.2
        rw [liveLine.eq_3 _ _ fun r h₁ h₂ => hc ⟨h₁, r, h₂⟩,
          liveLine.eq_3 _ _ fun r h₁ h₂ => hd ⟨h₁, r, h₂⟩]
        exact ih _ hlt h true rfl
    | false =>
      by_cases hc : c = '/' ∧ ∃ r, s = '/' :: r
      · obtain ⟨rfl, r', rfl⟩ := hline.1 hc
        obtain ⟨rfl, r, rfl⟩ := hc
        exact ⟨.nil, rfl⟩
      · by_cases he : c = '/' ∧ ∃ r, s = '*' :: r
        · obtain ⟨rfl, r', rfl⟩ := hblock.1 he
          obtain ⟨rfl, r, rfl⟩ := he
          cases h with
          | cons _ h => exact ih _ (by simp only [List.length_cons]; omega) h true rfl
        · have hd := hc ∘ hline.2
          have hf := he ∘ hblock.2
          obtain ⟨hlive, hopen⟩ := ih _ hlt h false rfl
          rw [liveLine.eq_6 _ _ (fun r h₁ h₂ => hc ⟨h₁, r, h₂⟩) fun r h₁ h₂ => he ⟨h₁, r, h₂⟩,
            liveLine.eq_6 _ _ (fun r h₁ h₂ => hd ⟨h₁, r, h₂⟩) fun r h₁ h₂ => hf ⟨h₁, r, h₂⟩]
          exact ⟨.cons hcd hlive, hopen⟩

/-- **Lines whose live parts are the same**, spaces at their ends aside, given whether a block comment is
open before them. -/
inductive RewordedLines : Bool → List Text → List Text → Prop where
  | nil {b : Bool} : RewordedLines b [] []
  | cons {b : Bool} {l m : Text} {ls ms : List Text} (h : Resembles (trim l) (trim m))
      (hlive : (liveLine b (trim l)).1 = (liveLine b (trim m)).1)
      (hls : RewordedLines (commentOpenAfter b l) ls ms) : RewordedLines b (l :: ls) (m :: ms)

/-- Lines with exchanged characters and the same live text have the same live parts, one by one. -/
theorem rewordedLines_of_resembles {ls ms : List Text} (hls : IsLines ls) (hms : IsLines ms)
    (h : List.Forall₂ Resembles ls ms) {b : Bool}
    (hlive : (liveFrom b ls.flatten).filter (!isSpace ·) =
      (liveFrom b ms.flatten).filter (!isSpace ·)) :
    RewordedLines b ls ms := by
  have hp : ∀ c, isSpace c = true → (!isSpace c) = false := fun c hc => by rw [hc]; rfl
  induction h generalizing b with
  | nil => exact .nil
  | @cons l m ls ms hlm h ih =>
    have htrim := hlm.trim
    obtain ⟨hparts, -⟩ := liveLine_resembles htrim b
    have hopen : commentOpenAfter b l = commentOpenAfter b m := (liveLine_resembles hlm b).2
    rw [List.flatten_cons, List.flatten_cons, filter_liveFrom_flatten_cons hp hls,
      filter_liveFrom_flatten_cons hp hms, ← hopen] at hlive
    obtain ⟨hfirst, hrest⟩ := List.append_inj hlive hparts.filter_isSpace.length_eq
    exact .cons htrim (hparts.eq_of_filter hfirst) (ih hls.of_cons hms.of_cons hrest)

/-- **The lines of a text with reworded comments** have the live parts of its lines. -/
theorem rewordedLines_lines {ls : List Lexeme} (h : List.Forall₂ Lexeme.Reworded (lexemes s) ls) :
    RewordedLines false (lines s) (lines (source ls)) := by
  have hs : Resembles s (source ls) := by
    have hsource := source_resembles h
    rwa [source_lexemes] at hsource
  refine rewordedLines_of_resembles (isLines_lines s) (isLines_lines _) hs.lines ?_
  rw [flatten_lines, flatten_lines, liveFrom, liveFrom, if_neg Bool.false_ne_true,
    if_neg Bool.false_ne_true, lexemes_source_of_reworded h, liveText_of_reworded h]

end Scan

end ShaderWeave
