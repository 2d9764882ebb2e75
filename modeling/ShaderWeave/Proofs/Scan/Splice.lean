import ShaderWeave.Proofs.Scan.LineState
import ShaderWeave.Proofs.Text.Replacing

set_option autoImplicit false

/-!
# Splicing code into lexemes

A replacement in a text does not look at comments: it finds the word in a comment as well, and what it
puts in may start a comment with what stands in front of it or take what follows into its last one. A
*splice* respects comments: it puts the lexemes of the code in the place of a word outside comments, and
all other lexemes stay as they are.

The two are the same where no comment has the word and the code *fits*: it starts no comment with a `/`
in front of the word, and it does not end within a line comment, or the line ends behind the word.

## Main definitions

* `ShaderWeave.Scan.splice` — lexemes with code in the place of a word.
* `ShaderWeave.Scan.Lexeme.refill` — a lexeme with the word replaced within a comment.
* `ShaderWeave.Scan.Fits` — code that keeps apart from what stands around it.

## Main results

* `ShaderWeave.Scan.replaceAll_eq_source_splice` — what a replacement does on any text.
* `ShaderWeave.Scan.lexemes_source_splice` — the lexemes of a text with code that fits.
* `ShaderWeave.Scan.complete_append_newline` — a text with a newline behind it is complete if it leaves
  no block comment open.
-/

namespace ShaderWeave

namespace Scan

open Text

/-! ### Texts that end their lines -/

/-- **A text in front of a line is complete** if no block comment is open behind it. -/
theorem complete_of_startsLine {u : Text} (hu : StartsLine u) (hopen : openBehind u = false) :
    Complete u := by
  intro s
  rcases eq_or_ne s [] with rfl | hs
  · simp [lexemes]
  · rcases lexemes_append_of_startsLine hu hs with ⟨-, hlex⟩ | ⟨hopen', -⟩
    · exact hlex
    · rw [hopen] at hopen'
      cases hopen'

/-- A newline at the end does not matter to the block comments that are open behind a text. -/
theorem openBehind_append_newline (u : Text) : openBehind (u ++ ['\n']) = openBehind u := by
  obtain ⟨x, hu, hx, hw⟩ := exists_append_lastLine u
  generalize lastLine u = w at hu hw
  subst hu
  rw [← foldl_commentOpenAfter_lines, ← foldl_commentOpenAfter_lines, List.append_assoc, lines_append hx,
    lines_append hx, lines_append_newline hw, List.foldl_append, List.foldl_append, List.foldl_cons,
    Include.commentOpenAfter_append_newline]
  rcases eq_or_ne w [] with rfl | hne
  · cases (lines x).foldl commentOpenAfter false <;> rfl
  · rw [lines_of_notMem hne hw]
    rfl

/-- **A text with a newline behind it is complete** if it leaves no block comment open. -/
theorem complete_append_newline {u : Text} (h : openBehind u = false) : Complete (u ++ ['\n']) :=
  complete_of_startsLine (fun c hc => by simpa using hc.symm) (by rw [openBehind_append_newline, h])

/-- Texts on lines of their own leave no block comment open if none of them does. -/
theorem openBehind_join {us : List Text} (h : ∀ u ∈ us, openBehind u = false) :
    openBehind (join ['\n'] us) = false := by
  induction us with
  | nil => exact openBehind_nil
  | cons u us ih =>
    rw [List.forall_mem_cons] at h
    cases us with
    | nil => simpa [join] using h.1
    | cons v us =>
      have hjoin : join ['\n'] (u :: v :: us) = u ++ ['\n'] ++ join ['\n'] (v :: us) := by simp [join]
      rw [hjoin]
      rcases eq_or_ne (join ['\n'] (v :: us)) [] with hnil | hne
      · rw [hnil, List.append_nil, openBehind_append_newline, h.1]
      · rw [openBehind_append (complete_append_newline h.1 _) hne, ih h.2]

/-! ### Words outside comments -/

/-- **What follows a word outside comments** in lexemes that start with it. -/
def liveAfter? : (word : Text) → List Lexeme → Option (List Lexeme)
  | [], ls => some ls
  | c :: word, .live d :: ls => if c = d then liveAfter? word ls else none
  | _ :: _, _ => none

/-- Lexemes start with a word outside comments if and only if they are its characters and then others. -/
theorem liveAfter?_eq_some_iff {word : Text} {ls r : List Lexeme} :
    liveAfter? word ls = some r ↔ ls = word.map .live ++ r := by
  fun_induction liveAfter? word ls with
  | case1 ls => simp [eq_comm]
  | case2 c word ls ih => simp [ih]
  | case3 c word d ls h => simp [Ne.symm h]
  | case4 c word ls h =>
    simp only [List.map_cons, List.cons_append, reduceCtorEq, false_iff]
    exact h _ _

/-- A word takes at least one lexeme. -/
theorem length_lt_of_liveAfter? {first : Char} {more : Text} {ls r : List Lexeme}
    (h : liveAfter? (first :: more) ls = some r) : r.length < ls.length := by
  rw [liveAfter?_eq_some_iff.1 h, List.length_append, List.length_map, List.length_cons]
  omega

/-- **Lexemes with code in the place of a word** outside comments, from left to right. The word is given
by its first character and the others. A newline right behind the word goes with the code, since it ends
the line comment that the code may end in. -/
def splice (first : Char) (more code : Text) : List Lexeme → List Lexeme
  | [] => []
  | l :: ls =>
    match _ : liveAfter? (first :: more) (l :: ls) with
    | some (.live '\n' :: r) => lexemes (code ++ ['\n']) ++ splice first more code r
    | some r => lexemes code ++ splice first more code r
    | none => l :: splice first more code ls
termination_by ls => ls.length
decreasing_by
  · rename_i h
    exact Nat.lt_of_succ_lt (length_lt_of_liveAfter? h)
  · exact length_lt_of_liveAfter? ‹_›
  · exact Nat.lt_succ_self _

section

variable {first : Char} {more code : Text}

/-- There is no place for code among no lexemes. -/
theorem splice_nil : splice first more code [] = [] := by
  rw [splice]

/-- Where the word does not start, the lexeme stays. -/
theorem splice_of_none {l : Lexeme} {ls : List Lexeme}
    (h : liveAfter? (first :: more) (l :: ls) = none) :
    splice first more code (l :: ls) = l :: splice first more code ls := by
  rw [splice]
  split
  · simp_all
  · simp_all
  · rfl

/-- The word in front of a newline is replaced together with it. -/
theorem splice_of_newline {ls r : List Lexeme}
    (h : liveAfter? (first :: more) ls = some (.live '\n' :: r)) :
    splice first more code ls = lexemes (code ++ ['\n']) ++ splice first more code r := by
  cases ls with
  | nil => cases h
  | cons l ls =>
    rw [splice]
    split <;> simp_all

/-- Code in the place of a word at the start, with no newline behind it, is the code's own lexemes and
then what becomes of the rest. -/
theorem splice_of_some {ls r : List Lexeme} (h : liveAfter? (first :: more) ls = some r)
    (hr : r.head? ≠ some (.live '\n')) :
    splice first more code ls = lexemes code ++ splice first more code r := by
  cases ls with
  | nil => cases h
  | cons l ls =>
    rw [splice]
    split
    · rename_i r' h'
      rw [h, Option.some.injEq] at h'
      exact absurd (congrArg List.head? h') hr
    · simp_all
    · simp_all

/-- A word does not start at a comment. -/
theorem liveAfter?_comment (t : Text) (ls : List Lexeme) :
    liveAfter? (first :: more) (.comment t :: ls) = none :=
  rfl

/-- A word does not start at a character that it does not have. -/
theorem liveAfter?_live {c : Char} (h : c ∉ first :: more) (ls : List Lexeme) :
    liveAfter? (first :: more) (.live c :: ls) = none := by
  rw [liveAfter?, if_neg]
  rintro rfl
  exact h List.mem_cons_self

/-- The text of spliced lexemes behind a word, with the newline that may be there. -/
theorem source_splice_of_some (hnewline : '\n' ∉ first :: more) {ls r : List Lexeme}
    (h : liveAfter? (first :: more) ls = some r) :
    source (splice first more code ls) = code ++ source (splice first more code r) := by
  by_cases hr : r.head? = some (.live '\n')
  · obtain ⟨r, rfl⟩ := List.head?_eq_some_iff.1 hr
    rw [splice_of_newline h, splice_of_none (liveAfter?_live hnewline r), source_append, source_lexemes,
      List.append_assoc]
    rfl
  · rw [splice_of_some h hr, source_append, source_lexemes]

end

/-! ### What a replacement does -/

/-- A lexeme with the word replaced within a comment. -/
def Lexeme.refill (first : Char) (more code : Text) : Lexeme → Lexeme
  | .live c => .live c
  | .comment t => .comment (replaceAll first more code t)

section

variable {first : Char} {more code : Text}

/-- The word stands outside comments where it stands in lexemes with all comments refilled. -/
theorem liveAfter?_map_refill (word : Text) (ls : List Lexeme) :
    liveAfter? word (ls.map (Lexeme.refill first more code)) =
      (liveAfter? word ls).map (List.map (Lexeme.refill first more code)) := by
  fun_induction liveAfter? word ls with
  | case1 ls => rfl
  | case2 c word ls ih => rw [List.map_cons, Lexeme.refill, liveAfter?, if_pos rfl, ih]
  | case3 c word d ls h => rw [List.map_cons, Lexeme.refill, liveAfter?, if_neg h]; rfl
  | case4 c word ls h =>
    cases ls with
    | nil => rfl
    | cons l ls =>
      cases l with
      | live d => exact absurd rfl (h d ls)
      | comment t => rfl

/-- A comment is kept apart from what follows it, since the word has no character that comments end in. -/
theorem replaceAll_of_comment? (hslash : '/' ∉ first :: more) (hnewline : '\n' ∉ first :: more)
    {s t r : Text} (h : comment? s = some (t, r)) :
    replaceAll first more code s = replaceAll first more code t ++ replaceAll first more code r := by
  rw [(comment?_eq_append h).1]
  rcases eq_or_ne r [] with rfl | hr
  · rw [replaceAll_nil, List.append_nil, List.append_nil]
  · obtain ⟨c, rfl⟩ := exists_closed_of_comment? h hr
    cases c with
    | line u hu => exact replaceAll_concat_append hnewline ('/' :: '/' :: u) r
    | block u hu =>
      have hconcat : replaceAll first more code ('/' :: '*' :: (u ++ ['*']) ++ ['/'] ++ r) = _ :=
        replaceAll_concat_append hslash _ r
      simpa [ClosedComment.text] using hconcat

/-- The lexemes of a text that starts with a word without `/`. -/
theorem liveAfter?_lexemes {word s : Text} (hslash : '/' ∉ word) :
    liveAfter? word (lexemes s) = (after? word s).map lexemes := by
  cases hafter : after? word s with
  | some r =>
    rw [after?_eq_some_iff.1 hafter, lexemes_append_of_isUncommented (isUncommented_of_notMem hslash)]
    exact liveAfter?_eq_some_iff.2 rfl
  | none =>
    rw [Option.map_none, Option.eq_none_iff_forall_ne_some]
    intro r hr
    have hs := congrArg source (liveAfter?_eq_some_iff.1 hr)
    rw [source_lexemes, source_append] at hs
    have hmap : source (word.map .live) = word := by
      rw [source, List.flatMap_map]
      exact List.flatMap_singleton' word
    exact after?_eq_none_iff.1 hafter ⟨source r, by rw [hs, hmap]⟩

/-- **What a replacement does**: the code takes the place of the word outside comments and within them. -/
theorem replaceAll_eq_source_splice (hslash : '/' ∉ first :: more) (hnewline : '\n' ∉ first :: more)
    (s : Text) :
    replaceAll first more code s =
      source (splice first more code ((lexemes s).map (Lexeme.refill first more code))) := by
  induction hn : s.length using Nat.strong_induction_on generalizing s with
  | _ n ih =>
  subst hn
  cases s with
  | nil => rw [replaceAll_nil, lexemes, List.map_nil, splice_nil, source_nil]
  | cons c s =>
    have hword : liveAfter? (first :: more) ((lexemes (c :: s)).map (Lexeme.refill first more code)) =
        ((after? (first :: more) (c :: s)).map lexemes).map
          (List.map (Lexeme.refill first more code)) := by
      rw [liveAfter?_map_refill, liveAfter?_lexemes hslash]
    cases hcomment : comment? (c :: s) with
    | some p =>
      rw [lexemes_of_comment? hcomment, List.map_cons, Lexeme.refill,
        splice_of_none (liveAfter?_comment _ _), source_cons, Lexeme.text,
        replaceAll_of_comment? hslash hnewline hcomment, ih _ (length_lt_of_comment? hcomment) p.2 rfl]
    | none =>
      cases hafter : after? (first :: more) (c :: s) with
      | some r =>
        rw [hafter] at hword
        have hlt : r.length < (c :: s).length := by
          rw [after?_eq_some_iff.1 hafter, List.length_append, List.length_cons]
          omega
        rw [replaceAll_of_after? hafter, source_splice_of_some hnewline hword, ih _ hlt r rfl]
      | none =>
        rw [hafter, lexemes_of_live hcomment, List.map_cons, Lexeme.refill] at hword
        rw [replaceAll_of_none hafter, lexemes_of_live hcomment, List.map_cons, Lexeme.refill,
          splice_of_none hword, source_cons, ih _ (Nat.lt_succ_self _) s rfl]
        rfl

/-! ### The lexemes of a text with code -/

/-- **Code that keeps apart from what stands around it** in the place of a word: the code starts with
neither `/` nor `*`, or no `/` stands in front of the word; and the code is complete, or the line or the
text ends behind the word. -/
structure Fits (word code : Text) (ls : List Lexeme) : Prop where
  front : (∃ c ∈ code.head?, c ≠ '/' ∧ c ≠ '*') ∨ ∀ ms ∈ ls.tails, liveAfter? ('/' :: word) ms = none
  back : Complete code ∨ ∀ ms ∈ ls.tails, ∀ r ∈ liveAfter? word ms, ∀ l ∈ r.head?, l = .live '\n'

/-- Code that keeps apart from what stands around it does so in every end of the lexemes. -/
theorem Fits.of_suffix {word : Text} {ls ms : List Lexeme} (h : Fits word code ls) (hms : ms <:+ ls) :
    Fits word code ms := by
  have htails : ∀ ns ∈ ms.tails, ns ∈ ls.tails := fun ns hns =>
    (List.mem_tails _ _).2 (((List.mem_tails _ _).1 hns).trans hms)
  exact ⟨h.front.imp_right fun hf ns hns => hf ns (htails ns hns),
    h.back.imp_right fun hb ns hns => hb ns (htails ns hns)⟩

/-- No comment starts at a character in front of another one if none starts at it in front of the same
character. -/
theorem comment?_cons_congr {c : Char} {s t : Text} (h : comment? (c :: s) = none)
    (hhead : t.head? = s.head?) : comment? (c :: t) = none := by
  cases s with
  | nil =>
    rw [List.head?_eq_none_iff.1 hhead]
    exact h
  | cons d s =>
    obtain ⟨t, rfl⟩ := List.head?_eq_some_iff.1 hhead
    rw [comment?_eq_none_iff] at h ⊢
    simpa [after?] using h

/-- A comment stays one in front of another text, if that is empty where the comment was the last lexeme. -/
theorem lexemes_comment_append {s t r : Text} (h : comment? s = some (t, r)) {x : Text}
    (hx : r = [] → x = []) : lexemes (t ++ x) = .comment t :: lexemes x := by
  rcases eq_or_ne r [] with rfl | hr
  · obtain rfl : s = t := by simpa using (comment?_eq_append h).1
    rw [hx rfl, List.append_nil, lexemes_of_comment? h]
  · obtain ⟨closed, rfl⟩ := exists_closed_of_comment? h hr
    exact lexemes_closed_append closed x

/-- A splice leaves the first character of a text if the word does not stand there. -/
theorem head?_source_splice {s : Text} (h : liveAfter? (first :: more) (lexemes s) = none) :
    (source (splice first more code (lexemes s))).head? = s.head? := by
  cases s with
  | nil => rw [lexemes, splice_nil, source_nil]
  | cons c s =>
    cases hcomment : comment? (c :: s) with
    | none =>
      rw [lexemes_of_live hcomment] at h ⊢
      rw [splice_of_none h]
      rfl
    | some p =>
      obtain ⟨hs, hlength⟩ := comment?_eq_append hcomment
      rw [lexemes_of_comment? hcomment, splice_of_none (liveAfter?_comment _ _), source_cons, Lexeme.text,
        hs]
      cases hp : p.1 with
      | nil => simp [hp] at hlength
      | cons d t => rfl

/-- **A character outside comments starts none in front of code that fits**: behind it stands the same
character as before, or the code. -/
theorem comment?_source_splice (hnewline : '\n' ∉ first :: more) {c : Char} {s : Text}
    (hlive : comment? (c :: s) = none) (h : Fits (first :: more) code (.live c :: lexemes s)) :
    comment? (c :: source (splice first more code (lexemes s))) = none := by
  cases hnext : liveAfter? (first :: more) (lexemes s) with
  | none => exact comment?_cons_congr hlive (head?_source_splice hnext)
  | some r =>
    rw [source_splice_of_some hnewline hnext]
    by_cases hc : c = '/'
    · obtain ⟨d, hd, hds⟩ := h.front.resolve_right fun hfront => by
        have := hfront _ ((List.mem_tails _ _).2 (List.suffix_refl _))
        rw [hc, liveAfter?, if_pos rfl, hnext] at this
        cases this
      obtain ⟨code, rfl⟩ := List.head?_eq_some_iff.1 hd
      simp [comment?_eq_none_iff, after?, hds.1.symm, hds.2.symm]
    · exact comment?_cons_eq_none hc _

/-- **The lexemes of a text that starts with the word**, if those of what follows are spliced. The code is
complete, alone or with the newline that follows it, or the text ends behind it. -/
theorem lexemes_source_splice_of_after? (hslash : '/' ∉ first :: more) (hcode : openBehind code = false)
    {s r : Text} (h : Fits (first :: more) code (lexemes s)) (hafter : after? (first :: more) s = some r)
    (ih : ∀ v, v.length < s.length → lexemes v <:+ lexemes s →
      lexemes (source (splice first more code (lexemes v))) = splice first more code (lexemes v)) :
    lexemes (source (splice first more code (lexemes s))) = splice first more code (lexemes s) := by
  have hword : liveAfter? (first :: more) (lexemes s) = some (lexemes r) := by
    rw [liveAfter?_lexemes hslash, hafter, Option.map_some]
  have hsuffix : lexemes r <:+ lexemes s := ⟨_, (liveAfter?_eq_some_iff.1 hword).symm⟩
  have hlt : r.length < s.length := by
    rw [after?_eq_some_iff.1 hafter, List.length_append, List.length_cons]
    omega
  by_cases hline : ∃ v, r = '\n' :: v
  · obtain ⟨v, rfl⟩ := hline
    rw [lexemes_of_live (comment?_cons_eq_none (by decide) v)] at hword hsuffix
    rw [splice_of_newline hword, source_append, source_lexemes, complete_append_newline hcode,
      ih v (Nat.lt_of_succ_lt hlt) ((List.suffix_cons _ _).trans hsuffix)]
  · have hhead : (lexemes r).head? ≠ some (.live '\n') := by
      intro hhead
      obtain ⟨ls, hls⟩ := List.head?_eq_some_iff.1 hhead
      obtain ⟨v, hv, -⟩ := eq_cons_of_lexemes_eq hls
      exact hline ⟨v, hv⟩
    rw [splice_of_some hword hhead, source_append, source_lexemes]
    rcases eq_or_ne r [] with rfl | hne
    · rw [lexemes, splice_nil, source_nil, List.append_nil, List.append_nil]
    · have hcomplete : Complete code := by
        refine h.back.resolve_right fun hback => hhead ?_
        obtain ⟨l, ls, hls⟩ := List.exists_cons_of_ne_nil (lexemes_ne_nil hne)
        have := hback _ ((List.mem_tails _ _).2 (List.suffix_refl _)) _ hword l (by rw [hls]; rfl)
        rw [hls, this]
        rfl
      rw [hcomplete, ih r hlt hsuffix]

/-- **The lexemes of a text with code that fits** are those of the text with those of the code spliced in.

**Proof sketch.** From left to right. A comment that something follows is closed, so it stays as it is. A
character outside comments still starts none, and the code keeps apart from what follows it. -/
theorem lexemes_source_splice (hslash : '/' ∉ first :: more) (hnewline : '\n' ∉ first :: more)
    (hcode : openBehind code = false) {s : Text} (h : Fits (first :: more) code (lexemes s)) :
    lexemes (source (splice first more code (lexemes s))) = splice first more code (lexemes s) := by
  induction hn : s.length using Nat.strong_induction_on generalizing s with
  | _ n ih =>
  subst hn
  cases hafter : after? (first :: more) s with
  | some r =>
    exact lexemes_source_splice_of_after? hslash hcode h hafter fun v hlt hv =>
      ih _ hlt (h.of_suffix hv) rfl
  | none =>
    have hword : liveAfter? (first :: more) (lexemes s) = none := by
      rw [liveAfter?_lexemes hslash, hafter, Option.map_none]
    cases s with
    | nil => rw [lexemes, splice_nil, source_nil, lexemes]
    | cons c s =>
      cases hcomment : comment? (c :: s) with
      | some p =>
        rw [lexemes_of_comment? hcomment] at h ⊢
        have hempty : p.2 = [] → source (splice first more code (lexemes p.2)) = [] := by
          intro hnil
          rw [hnil, lexemes, splice_nil, source_nil]
        rw [splice_of_none (liveAfter?_comment _ _), source_cons, Lexeme.text,
          lexemes_comment_append hcomment hempty,
          ih _ (length_lt_of_comment? hcomment) (h.of_suffix (List.suffix_cons _ _)) rfl]
      | none =>
        rw [lexemes_of_live hcomment] at h hword ⊢
        rw [splice_of_none hword, source_cons, Lexeme.text, List.singleton_append,
          lexemes_of_live (comment?_source_splice hnewline hcomment h),
          ih _ (Nat.lt_succ_self _) (h.of_suffix (List.suffix_cons _ _)) rfl]

end

end Scan

end ShaderWeave
