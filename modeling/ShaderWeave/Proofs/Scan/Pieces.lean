import ShaderWeave.Proofs.Scan.Balance
import ShaderWeave.Scan.Piece

set_option autoImplicit false

/-!
# Pieces in front of an item

Between two items of a text stand comments and plain characters, the lexemes of the text there. For a
text in front of an item this takes that each of its comments is closed; so the item does not become
part of one. A body in front of `}}` is found under the same condition.

## Main definitions

* `ShaderWeave.Scan.CommentsClosed` — each comment of a text is closed.
* `ShaderWeave.Scan.Lexeme.asPiece` — a lexeme as a piece that is no item.

## Main results

* `ShaderWeave.Scan.lexemes_append_cons` — the lexemes of such a text are its own if neither `/` nor
  `*` follows.
* `ShaderWeave.Scan.pieces_append_of_unread` — where nothing is read the pieces are the lexemes.
* `ShaderWeave.Scan.doubleBlock?_of_balanced` — a balanced body between `{{` and `}}` is a block.
-/

namespace ShaderWeave

namespace Scan

open Text

/-! ### Closed comments -/

/-- **A text with closed comments.** It is complete but for a `/` at its end, which may start a comment
with what follows. -/
def CommentsClosed (u : Text) : Prop :=
  ∀ t, .comment t ∈ lexemes u → ∃ c : ClosedComment, c.text = t

/-- The text of a lexeme that is a comment. -/
def Lexeme.commentText? : Lexeme → Option Text
  | .comment t => some t
  | .live _ => none

/-- The comments of a text are closed if each of them has the form of a closed comment. -/
theorem commentsClosed_of_forall {u : Text}
    (h : ∀ t ∈ (lexemes u).filterMap Lexeme.commentText?, ∃ c : ClosedComment, c.text = t) :
    CommentsClosed u :=
  fun t ht => h t (List.mem_filterMap.2 ⟨.comment t, ht, rfl⟩)

/-- A character other than `/` and `*` does not make what precedes it a comment. -/
theorem comment?_append_cons {d : Char} {u : Text} (h : comment? (d :: u) = none) {c : Char}
    (hslash : c ≠ '/') (hstar : c ≠ '*') (s : Text) : comment? (d :: (u ++ c :: s)) = none := by
  rw [comment?_eq_none_iff] at h ⊢
  cases u with
  | nil => simp [after?, hslash.symm, hstar.symm]
  | cons e u => simpa [after?] using h

/-- **The lexemes of a text with closed comments are its own**, if neither `/` nor `*` follows. -/
theorem lexemes_append_cons {u : Text} (h : CommentsClosed u) {c : Char} (hslash : c ≠ '/')
    (hstar : c ≠ '*') (s : Text) : lexemes (u ++ c :: s) = lexemes u ++ lexemes (c :: s) := by
  fun_induction lexemes u with
  | case1 => rfl
  | case2 d u t r hcomment ih =>
    have hmem : .comment t ∈ lexemes (d :: u) := by simp [lexemes_of_comment? hcomment]
    obtain ⟨closed, rfl⟩ := h t hmem
    have hrest : CommentsClosed r := fun t ht =>
      h t (by rw [lexemes_of_comment? hcomment]; exact List.mem_cons_of_mem _ ht)
    rw [(comment?_eq_append hcomment).1, List.append_assoc, lexemes_closed_append, ih hrest,
      List.cons_append]
  | case3 d u hlive ih =>
    have hrest : CommentsClosed u := fun t ht =>
      h t (by rw [lexemes_of_live hlive]; exact List.mem_cons_of_mem _ ht)
    rw [List.cons_append, lexemes_of_live (comment?_append_cons hlive hslash hstar s), ih hrest,
      List.cons_append]

/-! ### The first lexeme -/

/-- If the lexemes of a text start with a comment, the text starts with it. -/
theorem comment?_of_lexemes_eq {s t : Text} {ls : List Lexeme} (h : lexemes s = .comment t :: ls) :
    ∃ r, comment? s = some (t, r) ∧ lexemes r = ls := by
  cases s with
  | nil => simp [lexemes] at h
  | cons c s =>
    cases hc : comment? (c :: s) with
    | none =>
      rw [lexemes_of_live hc] at h
      simp at h
    | some p =>
      rw [lexemes_of_comment? hc] at h
      obtain ⟨ht, hls⟩ := List.cons.inj h
      cases ht
      exact ⟨p.2, rfl, hls⟩

/-- If the lexemes of a text start with a character, the text starts with it, and no comment starts there.
-/
theorem eq_cons_of_lexemes_eq {s : Text} {c : Char} {ls : List Lexeme}
    (h : lexemes s = .live c :: ls) : ∃ r, s = c :: r ∧ comment? s = none ∧ lexemes r = ls := by
  cases s with
  | nil => simp [lexemes] at h
  | cons d s =>
    cases hc : comment? (d :: s) with
    | none =>
      rw [lexemes_of_live hc] at h
      obtain ⟨hd, hls⟩ := List.cons.inj h
      cases hd
      exact ⟨s, rfl, rfl, hls⟩
    | some p =>
      rw [lexemes_of_comment? hc] at h
      simp at h

/-! ### Pieces -/

variable {α : Type} {R : Reader α}

/-- **A lexeme as a piece** that is no item. -/
def Lexeme.asPiece : Lexeme → Piece α
  | .live c => .plain c
  | .comment t => .comment t

/-- A lexeme as a piece has no value. -/
@[simp] theorem Lexeme.value?_asPiece (l : Lexeme) : (l.asPiece : Piece α).value? = none := by
  cases l <;> rfl

/-- The empty text has no pieces. -/
theorem pieces_nil : pieces R [] = [] := by
  rw [pieces]

/-- A comment is a piece of its own. -/
theorem pieces_of_comment? {s t r : Text} (h : comment? s = some (t, r)) :
    pieces R s = .comment t :: pieces R r := by
  cases s with
  | nil => simp [comment?] at h
  | cons c s =>
    rw [pieces]
    split
    · rename_i h'
      rw [h] at h'
      cases h'
      rfl
    · rename_i h'
      simp [h] at h'

/-- Where an item is read, the text it takes is a piece with its value. -/
theorem pieces_of_read {s r : Text} {a : α} (hc : comment? s = none)
    (h : R.read s = some (a, r)) :
    pieces R s = .item (s.take (s.length - r.length)) a :: pieces R r := by
  cases s with
  | nil =>
    obtain ⟨c, t, hnil, -⟩ := R.read_suffix h
    cases hnil
  | cons c s =>
    rw [pieces]
    split
    · rename_i h'
      simp [hc] at h'
    · split
      · rename_i h'
        rw [h] at h'
        cases h'
        rfl
      · rename_i h'
        simp [h] at h'

/-- A character at which neither a comment nor an item starts is a piece of its own. -/
theorem pieces_of_unread {c : Char} {s : Text} (hc : comment? (c :: s) = none)
    (h : R.read (c :: s) = none) : pieces R (c :: s) = .plain c :: pieces R s := by
  rw [pieces]
  split
  · rename_i h'
    simp [hc] at h'
  · split
    · rename_i h'
      simp [h] at h'
    · rfl

/-! ### Items -/

/-- The empty text has no items. -/
@[simp] theorem items_nil : items R [] = [] := by
  rw [items, pieces_nil]
  rfl

/-- Nothing is read in a comment. -/
theorem items_of_comment? {s t r : Text} (h : comment? s = some (t, r)) :
    items R s = items R r := by
  rw [items, pieces_of_comment? h]
  rfl

/-- An item that is read comes first, and reading goes on behind it. -/
theorem items_of_read {s r : Text} {a : α} (hc : comment? s = none) (h : R.read s = some (a, r)) :
    items R s = a :: items R r := by
  rw [items, pieces_of_read hc h]
  rfl

/-- Where nothing is read, reading goes on behind the character. -/
theorem items_of_unread {c : Char} {s : Text} (hc : comment? (c :: s) = none)
    (h : R.read (c :: s) = none) : items R (c :: s) = items R s := by
  rw [items, pieces_of_unread hc h]
  rfl

/-! ### Where nothing is read -/

/-- **Where nothing is read the pieces are the lexemes**: if no item starts at a character of the
lexemes in front of `v`.

**Proof sketch.** Induction on these lexemes. A comment is one for both; at a character nothing is
read, so it is a plain piece. -/
theorem pieces_append_of_unread {ls : List Lexeme} {s v : Text} (h : lexemes s = ls ++ lexemes v)
    (hread : ∀ front c back, ls = front ++ .live c :: back →
      R.read (c :: (source back ++ v)) = none) :
    pieces R s = ls.map Lexeme.asPiece ++ pieces R v := by
  induction ls generalizing s with
  | nil =>
    have hsv : s = v := by rw [← source_lexemes s, h, List.nil_append, source_lexemes]
    rw [hsv]
    rfl
  | cons l ls ih =>
    have hrest : ∀ front c back, ls = front ++ .live c :: back →
        R.read (c :: (source back ++ v)) = none := fun front c back hls =>
      hread (l :: front) c back (by rw [hls, List.cons_append])
    rw [List.cons_append] at h
    cases l with
    | comment t =>
      obtain ⟨r, hc, hr⟩ := comment?_of_lexemes_eq h
      rw [pieces_of_comment? hc, ih hr hrest]
      rfl
    | live c =>
      obtain ⟨r, rfl, hc, hr⟩ := eq_cons_of_lexemes_eq h
      have hunread := hread [] c ls rfl
      have hr' : r = source ls ++ v := by
        rw [← source_lexemes r, hr, source_append, source_lexemes]
      rw [← hr'] at hunread
      rw [pieces_of_unread hc hunread, ih hr hrest]
      rfl

/-- Where nothing is read there are no items. -/
theorem items_append_of_unread {ls : List Lexeme} {s v : Text} (h : lexemes s = ls ++ lexemes v)
    (hread : ∀ front c back, ls = front ++ .live c :: back →
      R.read (c :: (source back ++ v)) = none) :
    items R s = items R v := by
  have hnone : (ls.map Lexeme.asPiece).filterMap (Piece.value? (α := α)) = [] := by
    rw [List.filterMap_map]
    exact List.filterMap_eq_nil_iff.2 fun l _ => l.value?_asPiece
  rw [items, pieces_append_of_unread h hread, List.filterMap_append, hnone, List.nil_append, items]

/-! ### Bodies between double braces -/

/-- **The search for the closing `}}` steps over balanced lexemes**, at any depth: a `}` among them
closes a `{` among them, so it is not met at depth zero. -/
theorem closeDouble?_append_of_balanced {ls : List Lexeme} (h : Balanced ls) (d : Nat)
    (ks : List Lexeme) :
    closeDouble? d (ls ++ ks) = (closeDouble? d ks).map fun p => (ls ++ p.1, p.2) := by
  induction h generalizing d ks with
  | nil => simp
  | skip ho hc _ ih =>
    rw [List.cons_append, closeDouble?, ih, Option.map_map]
    · rfl
    · simpa using ho
    · rintro n - h
      exact absurd h hc
    · rintro ms - h
      exact absurd h hc
  | scope _ _ ihb ih =>
    simp [closeDouble?, ihb, ih, Function.comp_def]

/-- **A balanced body between `{{` and `}}` is a block**, also if it ends in `}`. -/
theorem doubleBlock?_of_balanced {body : Text} (hclosed : CommentsClosed body)
    (hbalanced : Balanced (lexemes body)) (s : Text) :
    doubleBlock? ('{' :: '{' :: (body ++ '}' :: '}' :: s)) = some (some (body, s)) := by
  have hend : lexemes ('}' :: '}' :: s) = .live '}' :: .live '}' :: lexemes s := by
    rw [lexemes_of_live (comment?_cons_eq_none (by decide) _),
      lexemes_of_live (comment?_cons_eq_none (by decide) _)]
  rw [doubleBlock?, cutAtDouble?_eq, lexemes_append_cons hclosed (by decide) (by decide),
    closeDouble?_append_of_balanced hbalanced, hend]
  simp [closeDouble?, sources, source_lexemes]

end Scan

end ShaderWeave
