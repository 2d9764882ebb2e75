import ShaderWeave.Proofs.Binding.Reading
import ShaderWeave.Proofs.Scan.LiveText
import ShaderWeave.Proofs.Scan.OpenComment

set_option autoImplicit false

/-!
# Bindings of commented programs

Comments are passed over where no declaration is read, so blanks in their place declare the same. Within
a declaration they are not: there a comment keeps the declaration from being read, or becomes part of it.
So the programs that are the same with blanks in place of their comments are those in which each
declaration ends before the next comment.

## Main definitions

* `ShaderWeave.Scan.Lexeme.blanked`, `ShaderWeave.Scan.withoutComments` — blanks in place of comments.
* `ShaderWeave.Uninterrupted` — lexemes with no comment within a declaration.

## Main results

* `ShaderWeave.Declaration.read_append` — a declaration is read whatever follows it.
* `ShaderWeave.extractBindings_withoutComments` — the bindings of a program with blanks in place of its
  comments.
-/

namespace ShaderWeave

open Text Scan

namespace Scan

/-! ### What follows a token -/

/-- A cut that is met within a text is met there whatever follows. -/
theorem cut_append {p : Char → Bool} {s r : Text} {c : Char} (h : s.dropWhile p = c :: r) (v : Text) :
    (s ++ v).takeWhile p = s.takeWhile p ∧ (s ++ v).dropWhile p = c :: (r ++ v) := by
  have hc : p c = false := by
    have := List.head?_dropWhile_not p s
    rw [h] at this
    simpa using this
  have hs : s ++ v = s.takeWhile p ++ c :: (r ++ v) := by
    conv_lhs => rw [← List.takeWhile_append_dropWhile (p := p) (l := s), h]
    simp
  have hall : ∀ d ∈ s.takeWhile p, p d = true := fun d hd => List.mem_takeWhile_imp hd
  rw [hs, List.takeWhile_append_of_pos hall, List.dropWhile_append_of_pos hall]
  simp [hc]

/-- Blanks that end before the text does are skipped alike in front of any text. -/
theorem skipBlanks_append_of_ne_nil {s : Text} (h : skipBlanks s ≠ []) (v : Text) :
    skipBlanks (s ++ v) = skipBlanks s ++ v := by
  obtain ⟨c, r, hr⟩ := List.exists_cons_of_ne_nil h
  rw [hr]
  exact (cut_append hr v).2

/-- A word with something behind it is read whatever follows. -/
theorem word?_append_of_ne_nil {s w r : Text} (h : word? s = some (w, r)) (hr : r ≠ []) (v : Text) :
    word? (s ++ v) = some (w, r ++ v) := by
  obtain ⟨c, t, rfl⟩ := List.exists_cons_of_ne_nil hr
  unfold word? at h ⊢
  split at h
  · cases h
  · rename_i hne
    rw [Option.some.injEq, Prod.mk.injEq] at h
    obtain ⟨htake, hdrop⟩ := cut_append h.2 v
    rw [htake, hdrop, if_neg hne, h.1]
    rfl

/-- A keyword that ends before the text does is read alike in front of any text. -/
theorem keyword?_append_of_ne_nil {w s r : Text} (h : keyword? w s = some r) (hr : r ≠ []) (v : Text) :
    keyword? w (s ++ v) = some (r ++ v) := by
  unfold keyword? at h
  split at h
  · rename_i u t hword
    split at h
    · rename_i hu
      cases h
      rw [keyword?, word?_append_of_ne_nil hword hr v]
      exact if_pos hu
    · cases h
  · cases h

end Scan

namespace Declaration

/-! ### What follows a declaration -/

/-- An attribute is read alike in front of any text, as it ends in a parenthesis. -/
theorem readAttribute_append {name s r : Text} {n : UInt32} (h : readAttribute name s = some (n, r))
    (v : Text) : readAttribute name (s ++ v) = some (n, r ++ v) := by
  simp only [readAttribute, bind, Option.bind_eq_some_iff, Prod.exists, Option.pure_def,
    Option.some.injEq, Prod.mk.injEq] at h
  obtain ⟨r₁, h₁, a, r₂, h₂, n', hn, rfl, rfl⟩ := h
  have hs := after?_eq_some_iff.1 h₁
  obtain ⟨u, hu, rfl, hr₁⟩ := exists_of_parenthesized? h₂
  have hafter : after? ('@' :: name) (skipBlanks (s ++ v)) = some (r₁ ++ v) := by
    rw [skipBlanks_append_of_ne_nil (by simp [hs]), hs, List.append_assoc, after?_append]
  have hargument : parenthesized? (skipBlanks (r₁ ++ v)) = some (trim u, r₂ ++ v) := by
    rw [skipBlanks_append_of_ne_nil (by simp [hr₁]), hr₁]
    simpa using parenthesized?_append hu (r₂ ++ v)
  simp only [readAttribute, hafter, hargument, hn, Option.bind_eq_bind, Option.bind_some]
  rfl

/-- The kind of a variable that ends before the text does is read alike in front of any text. -/
theorem readKind_append {s kind r : Text} {access : Option Text}
    (h : readKind s = some (kind, access, r)) (hr : r ≠ []) (v : Text) :
    readKind (s ++ v) = some (kind, access, r ++ v) := by
  unfold readKind at h
  split at h
  · rename_i s
    split at h
    · rename_i c r₁ hdrop
      simp only [Option.ite_none_left_eq_some, Option.some.injEq, Prod.mk.injEq] at h
      obtain ⟨hne, rfl, rfl, rfl⟩ := h
      obtain ⟨htake, hdrop'⟩ := cut_append hdrop v
      rw [List.cons_append, readKind, hdrop', htake]
      simp only [if_neg hne, skipBlanks_append_of_ne_nil hr]
    · cases h
  · rename_i hs
    cases h
    obtain ⟨c, t, rfl⟩ := List.exists_cons_of_ne_nil hr
    rw [List.cons_append, readKind]
    rintro u heq
    exact hs t (by rw [(List.cons.inj heq).1])

/-- A type is read alike in front of any text, as it ends in a semicolon. -/
theorem readType_append {s type r : Text} (h : readType s = some (type, r)) (v : Text) :
    readType (s ++ v) = some (type, r ++ v) := by
  unfold readType at h
  split at h
  · rename_i s
    split at h
    · rename_i c r₁ hdrop
      simp only [Option.ite_none_left_eq_some, Option.some.injEq, Prod.mk.injEq] at h
      obtain ⟨hne, rfl, rfl⟩ := h
      obtain ⟨htake, hdrop'⟩ := cut_append hdrop v
      rw [List.cons_append, readType, hdrop', htake]
      simp only [if_neg hne]
    · cases h
  · cases h

/-- Blanks in front of a part that is read are not all of the text. -/
theorem ne_nil_of_skipBlanks {s : Text} (h : skipBlanks s ≠ []) : s ≠ [] := by
  rintro rfl
  exact h rfl

/-- **A declaration is read whatever follows it.** Each part has the next one behind it, so none goes on
into what follows, and the last one ends in a semicolon. -/
theorem read_append {stages : StageSet} {s r : Text} {b : Binding} (h : read stages s = some (b, r))
    (v : Text) : read stages (s ++ v) = some (b, r ++ v) := by
  simp only [read, bind, Option.bind_eq_some_iff, Prod.exists, Option.pure_def,
    Option.some.injEq, Prod.mk.injEq] at h
  obtain ⟨g, r₁, h₁, n, r₂, h₂, r₃, h₃, k, a, r₄, h₄, w, r₅, h₅, ty, r₆, h₆, rfl, rfl⟩ := h
  -- what is left behind each part is not empty, as the next part is read from it
  have hr₅ : skipBlanks r₅ ≠ [] := fun hnil => by simp [hnil, readType] at h₆
  have hr₄ : r₄ ≠ [] := fun hnil => by simp [hnil, word?] at h₅
  have hr₃ : skipBlanks r₃ ≠ [] := fun hnil =>
    hr₄ (List.suffix_nil.1 (hnil ▸ readKind_suffix h₄))
  have hr₂ : skipBlanks r₂ ≠ [] := fun hnil =>
    ne_nil_of_skipBlanks hr₃ (List.suffix_nil.1 (hnil ▸ keyword?_suffix h₃))
  have hvar : keyword? "var".toList (skipBlanks (r₂ ++ v)) = some (r₃ ++ v) := by
    rw [skipBlanks_append_of_ne_nil hr₂]
    exact keyword?_append_of_ne_nil h₃ (ne_nil_of_skipBlanks hr₃) v
  have hkind : readKind (skipBlanks (r₃ ++ v)) = some (k, a, r₄ ++ v) := by
    rw [skipBlanks_append_of_ne_nil hr₃]
    exact readKind_append h₄ hr₄ v
  have hname : word? (r₄ ++ v) = some (w, r₅ ++ v) :=
    word?_append_of_ne_nil h₅ (ne_nil_of_skipBlanks hr₅) v
  have htype : readType (skipBlanks (r₅ ++ v)) = some (ty, r₆ ++ v) := by
    rw [skipBlanks_append_of_ne_nil hr₅]
    exact readType_append h₆ v
  simp only [read, readAttribute_append h₁ v, readAttribute_append h₂ v, hvar, hkind, hname, htype,
    Option.bind_eq_bind, Option.bind_some]
  rfl

/-- The stages that a declaration is seen in do not matter to whether it is read. -/
theorem isSome_read (stages : StageSet) (s : Text) :
    (read stages s).isSome = (read .empty s).isSome := by
  have hmap : read stages s =
      (read .empty s).map fun p => ({ p.1 with visibility := stages }, p.2) := by
    simp only [read, Option.bind_eq_bind, Option.map_bind, Option.pure_def, Function.comp_def,
      Option.map_some]
  rw [hmap, Option.isSome_map]

end Declaration

/-! ### Blanks in place of comments -/

namespace Scan

/-- **What stands for a lexeme** in a text without comments: a newline for a line comment, a space for a
block comment, and a character for itself. -/
def Lexeme.blanked : Lexeme → Char
  | .live c => c
  | .comment ('/' :: '/' :: _) => '\n'
  | .comment _ => ' '

/-- **A text with blanks in place of its comments.** -/
def withoutComments (s : Text) : Text :=
  (lexemes s).map Lexeme.blanked

/-- What stands for a comment is a newline or a space. -/
theorem Lexeme.blanked_comment (t : Text) :
    (Lexeme.comment t).blanked = '\n' ∨ (Lexeme.comment t).blanked = ' ' := by
  unfold Lexeme.blanked
  split
  · rename_i heq
    cases heq
  · exact .inl rfl
  · exact .inr rfl

/-- The text of lexemes before the first comment among them. -/
def liveFront (ls : List Lexeme) : Text :=
  liveText (ls.takeWhile (·.live?.isSome))

/-- **Lexemes are their characters before the first comment**, and others. -/
theorem eq_liveFront_append (ls : List Lexeme) :
    ls = (liveFront ls).map .live ++ ls.dropWhile (·.live?.isSome) := by
  induction ls with
  | nil => rfl
  | cons l ls ih =>
    cases l with
    | comment t => rfl
    | live c =>
      conv_lhs => rw [ih]
      rfl

/-- The characters of a text as lexemes make up the text. -/
theorem source_map_live (t : Text) : source (t.map .live) = t := by
  induction t with
  | nil => rfl
  | cons c t ih =>
    rw [List.map_cons, source_cons, ih]
    rfl

/-- Characters outside comments stand for themselves. -/
theorem map_blanked_map_live (t : Text) : (t.map .live).map Lexeme.blanked = t := by
  rw [List.map_map]
  exact List.map_id t

/-- Lexemes behind others are those of the text that they make up. -/
theorem lexemes_source_of_append {ks ls : List Lexeme} (h : lexemes (source (ks ++ ls)) = ks ++ ls) :
    lexemes (source ls) = ls := by
  induction ks with
  | nil => exact h
  | cons k ks ih =>
    refine ih ?_
    rw [List.cons_append] at h
    have hsource : ∀ r, lexemes r = ks ++ ls → lexemes (source (ks ++ ls)) = ks ++ ls := by
      intro r hr
      rw [← hr, source_lexemes]
    cases k with
    | comment t =>
      obtain ⟨r, -, hr⟩ := comment?_of_lexemes_eq h
      exact hsource r hr
    | live c =>
      obtain ⟨r, -, -, hr⟩ := eq_cons_of_lexemes_eq h
      exact hsource r hr

/-- **A text with blanks in place of its comments has none**: a `/` in front of a blank starts no
comment. -/
theorem comment?_map_blanked {ls : List Lexeme} (h : lexemes (source ls) = ls) :
    comment? (ls.map Lexeme.blanked) = none := by
  cases ls with
  | nil => rfl
  | cons l ls =>
    cases l with
    | comment t =>
      refine comment?_cons_eq_none ?_ _
      rcases Lexeme.blanked_comment t with hb | hb <;> rw [hb] <;> decide
    | live c =>
      obtain ⟨r, heq, hlive, -⟩ := eq_cons_of_lexemes_eq h
      rw [comment?_eq_none_iff] at hlive ⊢
      cases ls with
      | nil => simp [after?]
      | cons m ls =>
        cases m with
        | comment t => rcases Lexeme.blanked_comment t with hb | hb <;> simp [after?, hb]
        | live d => simpa [after?, source, Lexeme.text, Lexeme.blanked] using hlive

end Scan

/-! ### Programs whose declarations have no comments -/

/-- **Lexemes with no comment within a declaration**: a declaration that is read at an `@` outside comments,
with the comments behind it or with blanks in their place, is read before the next comment. -/
def Uninterrupted (ls : List Lexeme) : Prop :=
  ∀ ms ∈ ls.tails, ms.head? = some (.live '@') →
    (Declaration.read .empty (source ms)).isSome = true ∨
      (Declaration.read .empty (ms.map Lexeme.blanked)).isSome = true →
    (Declaration.read .empty (liveFront ms)).isSome = true

/-- Whether comments interrupt a declaration can be computed. -/
instance decidableUninterrupted (ls : List Lexeme) : Decidable (Uninterrupted ls) :=
  inferInstanceAs (Decidable (∀ ms ∈ ls.tails, _))

/-- Lexemes with no comment within a declaration have none in any end of them. -/
theorem Uninterrupted.of_append {ks ls : List Lexeme} (h : Uninterrupted (ks ++ ls)) :
    Uninterrupted ls := fun ms hms =>
  h ms ((List.mem_tails _ _).2 (((List.mem_tails _ _).1 hms).trans (List.suffix_append ks ls)))

namespace Declaration

/-- **A declaration in front of the first comment** is read with the comments behind it and with blanks in
their place. -/
theorem read_of_read_liveFront {stages : StageSet} {ls : List Lexeme} {b : Binding} {r : Text}
    (h : read stages (liveFront ls) = some (b, r)) :
    ∃ front back, ls = front ++ back ∧ front ≠ [] ∧
      read stages (source ls) = some (b, source back) ∧
      read stages (ls.map Lexeme.blanked) = some (b, back.map Lexeme.blanked) := by
  obtain ⟨⟨u, hu⟩, hne⟩ := read_suffix h
  have hfront : u ≠ [] := by
    rintro rfl
    exact hne hu
  have hls := eq_liveFront_append ls
  generalize ls.dropWhile (·.live?.isSome) = ks at hls
  have hback : (liveFront ls).map Lexeme.live = u.map Lexeme.live ++ r.map Lexeme.live := by
    rw [← hu, List.map_append]
  refine ⟨u.map .live, r.map .live ++ ks, ?_, by simpa using hfront, ?_, ?_⟩
  · rw [← List.append_assoc, ← hback, ← hls]
  · conv_lhs => rw [hls]
    rw [source_append, source_map_live, read_append h, source_append, source_map_live]
  · conv_lhs => rw [hls]
    rw [List.map_append, map_blanked_map_live, read_append h, List.map_append, map_blanked_map_live]

variable {stages : StageSet} {ls : List Lexeme}

/-- A comment declares nothing, and neither does the blank in its place. -/
theorem declarations_comment_cons {t : Text}
    (hls : lexemes (source (.comment t :: ls)) = .comment t :: ls) :
    declarations stages (source (.comment t :: ls)) = declarations stages (source ls) ∧
      declarations stages ((Lexeme.comment t :: ls).map Lexeme.blanked) =
        declarations stages (ls.map Lexeme.blanked) := by
  obtain ⟨r, hcomment, hr⟩ := comment?_of_lexemes_eq hls
  have hr' : r = source ls := by rw [← hr, source_lexemes]
  have hblanked := comment?_map_blanked hls
  have hat : (Lexeme.comment t).blanked ≠ '@' := by
    rcases Lexeme.blanked_comment t with hb | hb <;> rw [hb] <;> decide
  refine ⟨by rw [declarations, items_of_comment? hcomment, hr', declarations], ?_⟩
  exact items_of_unread hblanked (reader_read_eq_none stages hat _)

/-- Where no declaration is read from a character on, the character is passed over. -/
theorem declarations_live_cons {c : Char} (hls : lexemes (source (.live c :: ls)) = .live c :: ls)
    (hs : (reader stages).read (source (.live c :: ls)) = none)
    (ht : (reader stages).read ((Lexeme.live c :: ls).map Lexeme.blanked) = none) :
    declarations stages (source (.live c :: ls)) = declarations stages (source ls) ∧
      declarations stages ((Lexeme.live c :: ls).map Lexeme.blanked) =
        declarations stages (ls.map Lexeme.blanked) := by
  obtain ⟨-, -, hlive, -⟩ := eq_cons_of_lexemes_eq hls
  exact ⟨items_of_unread hlive hs, items_of_unread (comment?_map_blanked hls) ht⟩

/-- **The declarations of lexemes with blanks in place of comments** are those of their text, if no comment
stands within one.

**Proof sketch.** Induction on the number of lexemes. A comment declares nothing, and neither does the
blank. At an `@` a declaration is read from both texts or from neither, and then from what stands before
the next comment; so it is the same one, and what is left are lexemes again. -/
theorem declarations_map_blanked (hls : lexemes (source ls) = ls) (h : Uninterrupted ls) :
    declarations stages (ls.map Lexeme.blanked) = declarations stages (source ls) := by
  induction hn : ls.length using Nat.strong_induction_on generalizing ls with
  | _ n ih =>
  subst hn
  cases ls with
  | nil => rfl
  | cons l ls =>
    have hrest : lexemes (source ls) = ls := @lexemes_source_of_append [l] ls hls
    have hstep := ih ls.length (Nat.lt_succ_self _) hrest (@Uninterrupted.of_append [l] ls h) rfl
    cases l with
    | comment t =>
      obtain ⟨hs, ht⟩ := declarations_comment_cons hls
      rw [hs, ht, hstep]
    | live c =>
      by_cases hc : c = '@'
      · subst hc
        by_cases hsome : (read .empty (source (.live '@' :: ls))).isSome = true ∨
            (read .empty ((Lexeme.live '@' :: ls).map Lexeme.blanked)).isSome = true
        · have hfront := h _ ((List.mem_tails _ _).2 (List.suffix_refl _)) rfl hsome
          rw [← isSome_read stages, Option.isSome_iff_exists] at hfront
          obtain ⟨⟨b, r⟩, hfront⟩ := hfront
          obtain ⟨front, back, heq, hne, hreadSource, hreadBlanked⟩ := read_of_read_liveFront hfront
          have hlength : back.length < (Lexeme.live '@' :: ls).length := by
            have := List.length_pos_iff.2 hne
            rw [heq, List.length_append]
            omega
          obtain ⟨-, -, hlive, -⟩ := eq_cons_of_lexemes_eq hls
          rw [declarations, declarations, items_of_read (comment?_map_blanked hls) hreadBlanked,
            items_of_read hlive hreadSource]
          rw [heq] at hls h
          exact congrArg _ (ih _ hlength (lexemes_source_of_append hls) h.of_append rfl)
        · rw [← isSome_read stages, ← isSome_read stages, not_or, Bool.not_eq_true, Bool.not_eq_true,
            Option.isSome_eq_false_iff, Option.isSome_eq_false_iff, Option.isNone_iff_eq_none,
            Option.isNone_iff_eq_none] at hsome
          obtain ⟨hs, ht⟩ := declarations_live_cons hls hsome.1 hsome.2
          rw [hs, ht, hstep]
      · obtain ⟨hs, ht⟩ := declarations_live_cons hls (reader_read_eq_none stages hc _)
          (reader_read_eq_none stages hc _)
        rw [hs, ht, hstep]

end Declaration

/-- **The bindings of a program with blanks in place of its comments** are those of the program, if no
comment stands within a declaration: the same declarations are read in the same order, each with the
same name and type, and they are collected and noticed alike. What the comments say does not matter. -/
theorem extractBindings_withoutComments {s : Text} (h : Uninterrupted (lexemes s)) :
    (∀ stages, declarations stages (withoutComments s) = declarations stages s) ∧
      ∀ stage set, extractBindings stage (withoutComments s) set = extractBindings stage s set := by
  have hdeclarations : ∀ stages, declarations stages (withoutComments s) = declarations stages s := by
    intro stages
    have hls : lexemes (source (lexemes s)) = lexemes s := by rw [source_lexemes]
    have hblanked := @Declaration.declarations_map_blanked stages _ hls h
    rwa [source_lexemes] at hblanked
  refine ⟨hdeclarations, fun stage set => ?_⟩
  rw [extractBindings, extractBindings, hdeclarations]

/-- Two declarations, with comments in front of each and behind them. -/
def lanterns : Text :=
  ("// @group(9) ;\n@group(0) @binding(0) var<uniform> wick: W;/* ; > @ */\n" ++
    "@group(0) @binding(1) var pane: P;// end").toList

/-- They are the same without the comments. -/
theorem extractBindings_withoutComments_lanterns :
    Uninterrupted (lexemes lanterns) ∧
      declarations .empty (withoutComments lanterns) = declarations .empty lanterns ∧
      (declarations .empty lanterns).map Binding.name = ["wick", "pane"] := by
  have h : Uninterrupted (lexemes lanterns) := by decide +kernel
  exact ⟨h, (extractBindings_withoutComments h).1 .empty, by decide +kernel⟩

/-- A declaration with a comment between its attributes. -/
def spaced : Text :=
  "@group(0) /* c */ @binding(0) var<uniform> a: A;".toList

/-- A declaration with a comment in front of its type. -/
def typed : Text :=
  "@group(0) @binding(0) var<uniform> a: /* ; */ A;".toList

/-- **A comment within a declaration hides it, or cuts its type short.** With blanks in place of the comment
the declaration is there, and its type is the one behind the comment. -/
theorem comment_within_declaration :
    declarations .empty spaced = [] ∧
      (declarations .empty (withoutComments spaced)).map Binding.name = ["a"] ∧
      (declarations .empty typed).map Binding.type = ["/*"] ∧
      (declarations .empty (withoutComments typed)).map Binding.type = ["A"] := by
  decide +kernel

end ShaderWeave
