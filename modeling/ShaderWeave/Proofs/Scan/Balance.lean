import ShaderWeave.Proofs.Text.Occurrence
import ShaderWeave.Scan.Brace

set_option autoImplicit false

/-!
# Complete texts and balanced lexemes

A text is *complete* if the way it splits into lexemes does not depend on what follows: its comments
are closed, and it does not end within the opener of one. Lexemes are *balanced* if the braces among
them match each other. The search for a closing brace steps over a complete and balanced text.

## Main definitions

* `ShaderWeave.Scan.Complete` — the lexemes of a text are its own.
* `ShaderWeave.Scan.Balanced` — lexemes whose braces match.
* `ShaderWeave.Scan.WellBraced` — a complete text with balanced lexemes.
* `ShaderWeave.Scan.isUncommented` — a text in which no comment starts.
* `ShaderWeave.Scan.ClosedComment` — a comment with its end.

## Main results

* `ShaderWeave.Scan.closeBrace?_append_of_balanced` — the closing brace of a block stands behind
  balanced lexemes.
* `ShaderWeave.Scan.WellBraced.block?` — a well-braced text between braces is a block.
-/

namespace ShaderWeave

namespace Scan

open Text

/-! ### Where comments start -/

/-- There is no comment where neither opener stands. -/
theorem comment?_eq_none_iff {s : Text} :
    comment? s = none ↔ after? ['/', '/'] s = none ∧ after? ['/', '*'] s = none := by
  unfold comment?
  split
  · simp [after?]
  · simp [after?]
  · rename_i h₁ h₂
    simp only [after?_eq_none_iff, true_iff]
    exact ⟨fun ⟨r, hr⟩ => h₁ r hr.symm, fun ⟨r, hr⟩ => h₂ r hr.symm⟩

/-- A comment starts with a slash, so no comment starts at another character. -/
theorem comment?_cons_eq_none {c : Char} (h : c ≠ '/') (s : Text) : comment? (c :: s) = none := by
  simp [comment?_eq_none_iff, after?, h.symm]

/-! ### Cuts at delimiters -/

/-- The search for the closing brace takes a comment along, whatever braces it has. -/
theorem cutAtBrace?_of_comment? {s t r : Text} (h : comment? s = some (t, r)) (d : Nat) :
    cutAtBrace? d s = (cutAtBrace? d r).map fun p => (t ++ p.1, p.2) := by
  simp [cutAtBrace?_eq, lexemes_of_comment? h, closeBrace?, sources, Function.comp_def, Lexeme.text]

/-- The search for the closing brace counts an opening brace, stops at a closing one with nothing left to
close, and takes every other character along. -/
theorem cutAtBrace?_of_live {c : Char} {s : Text} (h : comment? (c :: s) = none) (d : Nat) :
    cutAtBrace? d (c :: s) =
      if c = '{' then (cutAtBrace? (d + 1) s).map fun p => (c :: p.1, p.2)
      else if c = '}' ∧ d = 0 then some ([], s)
      else (cutAtBrace? (if c = '}' then d - 1 else d) s).map fun p => (c :: p.1, p.2) := by
  rw [cutAtBrace?.eq_def]
  simp only
  split
  · rename_i h'
    rw [h] at h'
    cases h'
  · split
    · rfl
    · split
      · cases d <;> simp_all
      · simp_all

/-- The search for the closing `\x7d\x7d` takes a comment along, whatever braces it has. -/
theorem cutAtDouble?_of_comment? {s t r : Text} (h : comment? s = some (t, r)) (d : Nat) :
    cutAtDouble? d s = (cutAtDouble? d r).map fun p => (t ++ p.1, p.2) := by
  simp [cutAtDouble?_eq, lexemes_of_comment? h, closeDouble?, sources, Function.comp_def, Lexeme.text]

/-- The search for the closing `\x7d\x7d` counts an opening brace, stops at two closing ones with nothing
left to close, and takes every other character along. One closing brace too many is passed over. -/
theorem cutAtDouble?_of_live {c : Char} {s : Text} (h : comment? (c :: s) = none) (d : Nat) :
    cutAtDouble? d (c :: s) =
      if c = '{' then (cutAtDouble? (d + 1) s).map fun p => (c :: p.1, p.2)
      else if c = '}' ∧ d = 0 ∧ s.head? = some '}' then some ([], s.tail)
      else (cutAtDouble? (if c = '}' then d - 1 else d) s).map fun p => (c :: p.1, p.2) := by
  rw [cutAtDouble?.eq_def]
  simp only
  split
  · rename_i h'
    rw [h] at h'
    cases h'
  · split
    · rfl
    · split
      · cases d <;> simp_all
      · simp_all

/-! ### Texts without comments -/

/-- **Whether a text is without comments**: no comment starts in it, whatever follows. -/
def isUncommented (t : Text) : Bool :=
  isClearOf ['/', '/'] t && isClearOf ['/', '*'] t

/-- An end of a text without comments is without comments. -/
theorem isUncommented_of_cons {c : Char} {t : Text} (h : isUncommented (c :: t) = true) :
    isUncommented t = true := by
  rw [isUncommented, Bool.and_eq_true] at h ⊢
  exact ⟨isClearOf_of_cons h.1, isClearOf_of_cons h.2⟩

/-- No comment starts at a text without comments, whatever stands behind it. -/
theorem comment?_append_of_isUncommented {t : Text} (h : isUncommented t = true) (ht : t ≠ [])
    (s : Text) : comment? (t ++ s) = none := by
  rw [isUncommented, Bool.and_eq_true] at h
  exact comment?_eq_none_iff.2
    ⟨after?_append_of_isClearOf h.1 ht s, after?_append_of_isClearOf h.2 ht s⟩

/-- A text without `/` is without comments. -/
theorem isUncommented_of_notMem {t : Text} (h : '/' ∉ t) : isUncommented t = true := by
  rw [isUncommented, isClearOf_of_notMem h, isClearOf_of_notMem h, Bool.and_self]

/-- **A closed comment**: a line comment with its newline, or a block comment with its `*/`. -/
inductive ClosedComment where
  /-- The comment `//` with a content that stays on its line. -/
  | line (content : Text) (onLine : '\n' ∉ content)
  /-- The comment `/*` with a content that does not end it. -/
  | block (content : Text) (unended : occurs ['*', '/'] content = false)

/-- The text of a comment with its delimiters. -/
def ClosedComment.text : ClosedComment → Text
  | .line content _ => '/' :: '/' :: (content ++ ['\n'])
  | .block content _ => '/' :: '*' :: (content ++ ['*', '/'])

/-- A line comment ends at its first newline. -/
theorem throughNewline_of_notMem {u : Text} (h : '\n' ∉ u) (s : Text) :
    throughNewline (u ++ '\n' :: s) = (u ++ ['\n'], s) := by
  induction u with
  | nil => simp [throughNewline]
  | cons c u ih =>
    rw [List.mem_cons, not_or] at h
    simp [throughNewline, Ne.symm h.1, ih h.2]

/-- A block comment ends at the first `*/`. -/
theorem throughBlockEnd_of_occurs {u : Text} (h : occurs ['*', '/'] u = false) (s : Text) :
    throughBlockEnd (u ++ '*' :: '/' :: s) = (u ++ ['*', '/'], s) := by
  induction u with
  | nil => simp [throughBlockEnd]
  | cons c u ih =>
    rw [occurs, Bool.or_eq_false_iff] at h
    rw [List.cons_append, throughBlockEnd, ih h.2]
    · rfl
    · -- the content and the `*` behind it do not make up an earlier `*/`
      rintro s' rfl heq
      cases u with
      | nil => simp at heq
      | cons d u =>
        simp only [List.cons_append, List.cons.injEq] at heq
        simp [after?, heq.1] at h

/-- A closed comment is read whole, whatever follows. -/
theorem comment?_closed (c : ClosedComment) (s : Text) :
    comment? (c.text ++ s) = some (c.text, s) := by
  cases c with
  | line u h => simp [ClosedComment.text, comment?, throughNewline_of_notMem h]
  | block u h => simp [ClosedComment.text, comment?, throughBlockEnd_of_occurs h]

/-! ### Complete texts -/

/-- **A complete text**: whatever follows, its lexemes are its own. -/
def Complete (u : Text) : Prop :=
  ∀ s, lexemes (u ++ s) = lexemes u ++ lexemes s

/-- The empty text is complete. -/
theorem complete_nil : Complete [] := by
  simp [Complete, lexemes]

/-- **Complete texts in a row are complete.** -/
theorem Complete.append {u v : Text} (hu : Complete u) (hv : Complete v) : Complete (u ++ v) := by
  intro s
  rw [List.append_assoc, hu, hv, hu, List.append_assoc]

/-- A character that starts no comment is complete. -/
theorem complete_singleton {c : Char} (h : c ≠ '/') : Complete [c] := by
  intro s
  rw [List.singleton_append, lexemes_of_live (comment?_cons_eq_none h s),
    lexemes_of_live (comment?_cons_eq_none h []), lexemes, List.singleton_append]

/-- The lexemes of a text without comments are its characters. -/
theorem lexemes_append_of_isUncommented {t : Text} (h : isUncommented t = true) (s : Text) :
    lexemes (t ++ s) = t.map .live ++ lexemes s := by
  induction t with
  | nil => rfl
  | cons c t ih =>
    have hc := comment?_append_of_isUncommented h (by simp) s
    rw [List.cons_append] at hc ⊢
    rw [lexemes_of_live hc, ih (isUncommented_of_cons h), List.map_cons, List.cons_append]

/-- In a text without comments every character is a lexeme. -/
theorem lexemes_of_isUncommented {t : Text} (h : isUncommented t = true) :
    lexemes t = t.map .live := by
  simpa [lexemes] using lexemes_append_of_isUncommented h []

/-- A text without comments is complete. -/
theorem complete_of_isUncommented {t : Text} (h : isUncommented t = true) : Complete t := by
  intro s
  rw [lexemes_append_of_isUncommented h, lexemes_of_isUncommented h]

/-- A closed comment is one lexeme in front of any text. -/
theorem lexemes_closed_append (c : ClosedComment) (s : Text) :
    lexemes (c.text ++ s) = .comment c.text :: lexemes s :=
  lexemes_of_comment? (comment?_closed c s)

/-- A closed comment on its own is one lexeme. -/
theorem lexemes_closed (c : ClosedComment) : lexemes c.text = [.comment c.text] := by
  simpa [lexemes] using lexemes_closed_append c []

/-- A closed comment is complete. -/
theorem complete_closed (c : ClosedComment) : Complete c.text := by
  intro s
  rw [lexemes_closed_append, lexemes_closed, List.singleton_append]

/-! ### Balanced lexemes -/

/-- **Balanced lexemes**: every brace outside comments has its match among them. -/
inductive Balanced : List Lexeme → Prop where
  | nil : Balanced []
  | skip {l : Lexeme} {ls : List Lexeme} (ho : l ≠ .live '{') (hc : l ≠ .live '}')
      (h : Balanced ls) : Balanced (l :: ls)
  | scope {body ls : List Lexeme} (hb : Balanced body) (h : Balanced ls) :
      Balanced (.live '{' :: (body ++ .live '}' :: ls))

/-- Balanced lexemes in a row are balanced. -/
theorem Balanced.append {ks ls : List Lexeme} (hk : Balanced ks) (hl : Balanced ls) :
    Balanced (ks ++ ls) := by
  induction hk with
  | nil => exact hl
  | skip ho hc _ ih => exact .skip ho hc ih
  | scope hb _ _ ih =>
    rw [List.cons_append, List.append_assoc, List.cons_append]
    exact .scope hb ih

/-- Characters that are no braces are balanced. -/
theorem balanced_map_live {t : Text} (ho : '{' ∉ t) (hc : '}' ∉ t) :
    Balanced (t.map .live) := by
  induction t with
  | nil => exact .nil
  | cons c t ih =>
    rw [List.mem_cons, not_or] at ho hc
    exact .skip (by simpa using Ne.symm ho.1) (by simpa using Ne.symm hc.1) (ih ho.2 hc.2)

/-- A comment is balanced, whatever braces it has. -/
theorem balanced_comment (t : Text) : Balanced [.comment t] :=
  .skip (by simp) (by simp) .nil

/-- **The search for the closing brace steps over balanced lexemes**, at any depth.

**Proof sketch.** Induction on the balance. Behind the `{` of a scope the search is one deeper; by
induction it steps over the body at that depth, comes back at the `}`, and goes on. -/
theorem closeBrace?_append_of_balanced {ls : List Lexeme} (h : Balanced ls) (d : Nat)
    (ks : List Lexeme) :
    closeBrace? d (ls ++ ks) = (closeBrace? d ks).map fun p => (ls ++ p.1, p.2) := by
  induction h generalizing d ks with
  | nil => simp
  | skip ho hc _ ih =>
    rw [List.cons_append, closeBrace?, ih, Option.map_map]
    · rfl
    · simpa using ho
    · rintro - h
      exact absurd h hc
    · rintro n - h
      exact absurd h hc
  | scope _ _ ihb ih =>
    simp [closeBrace?, ihb, ih, Function.comp_def]

/-! ### Well-braced texts -/

/-- **A well-braced text** is complete, and its lexemes are balanced. -/
structure WellBraced (u : Text) : Prop where
  complete : Complete u
  balanced : Balanced (lexemes u)

/-- A text between braces. -/
def braced (u : Text) : Text :=
  '{' :: (u ++ ['}'])

namespace WellBraced

/-- The empty text is well-braced. -/
theorem nil : WellBraced [] :=
  ⟨complete_nil, by rw [lexemes]; exact .nil⟩

/-- Well-braced texts in a row are well-braced. -/
theorem append {u v : Text} (hu : WellBraced u) (hv : WellBraced v) : WellBraced (u ++ v) := by
  refine ⟨hu.complete.append hv.complete, ?_⟩
  rw [hu.complete]
  exact hu.balanced.append hv.balanced

/-- A text without comments and braces is well-braced. -/
theorem of_isUncommented {u : Text} (h : isUncommented u = true) (ho : '{' ∉ u) (hc : '}' ∉ u) :
    WellBraced u := by
  refine ⟨complete_of_isUncommented h, ?_⟩
  rw [lexemes_of_isUncommented h]
  exact balanced_map_live ho hc

/-- A closed comment is well-braced, whatever braces it has. -/
theorem closedComment (c : ClosedComment) : WellBraced c.text := by
  refine ⟨complete_closed c, ?_⟩
  rw [lexemes_closed]
  exact balanced_comment _

/-- A well-braced text between braces is well-braced. -/
theorem braced {u : Text} (h : WellBraced u) : WellBraced (braced u) := by
  refine ⟨(complete_singleton (by decide)).append
    (h.complete.append (complete_singleton (by decide))), ?_⟩
  rw [Scan.braced, lexemes_of_live (comment?_cons_eq_none (by decide) _), h.complete,
    lexemes_of_live (comment?_cons_eq_none (by decide) _), lexemes]
  exact .scope h.balanced .nil

/-- **A well-braced text between braces is a block.** -/
theorem block? {u : Text} (h : WellBraced u) (s : Text) :
    block? (Scan.braced u ++ s) = some (u, s) := by
  have hclose : lexemes ('}' :: s) = .live '}' :: lexemes s :=
    lexemes_of_live (comment?_cons_eq_none (by decide) s)
  rw [Scan.braced, List.cons_append, List.append_assoc, List.singleton_append, Scan.block?,
    cutAtBrace?_eq, h.complete, closeBrace?_append_of_balanced h.balanced, hclose]
  simp [closeBrace?, sources, source_lexemes]

end WellBraced

end Scan

end ShaderWeave
