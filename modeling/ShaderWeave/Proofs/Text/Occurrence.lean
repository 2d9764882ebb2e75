import Mathlib.Data.List.Infix
import Mathlib.Data.List.TakeWhile
import ShaderWeave.Scan.Token

set_option autoImplicit false

/-!
# Where a word can start

Passes over a text look for a word at each position. To know what a pass does with a piece of text,
whatever stands behind it, one has to know that the word starts nowhere in the piece, not even to be
completed by what follows. Such a piece is *clear of* the word.

## Main definitions

* `ShaderWeave.Text.isClearOf` — the word occurs nowhere in a text, and no proper beginning of it
  ends the text.

## Main results

* `ShaderWeave.Text.after?_eq_some_iff` — what follows a beginning, by concatenation.
* `ShaderWeave.Text.after?_append_of_isClearOf` — in a text that is clear of a word the word does not
  start, whatever follows the text.
* `ShaderWeave.Scan.word?_append`, `ShaderWeave.Scan.parenthesized?_append`,
  `ShaderWeave.Text.skipBlanks_append` — readers of tokens on texts that are put together.
-/

namespace ShaderWeave

namespace Text

/-! ### Beginnings -/

/-- A text starts with `pre` exactly if it is `pre` and what follows it. -/
theorem after?_eq_some_iff {pre s r : Text} : after? pre s = some r ↔ s = pre ++ r := by
  fun_induction after? pre s with
  | case1 s => simp [eq_comm]
  | case2 p pre => simp
  | case3 pre c s ih => simp [ih]
  | case4 p pre c s h => simp [Ne.symm h]

/-- Behind a word in front of a text stands the text. -/
@[simp] theorem after?_append (pre s : Text) : after? pre (pre ++ s) = some s :=
  after?_eq_some_iff.2 rfl

/-- Nothing stands behind a word if the text does not start with it. -/
theorem after?_eq_none_iff {pre s : Text} : after? pre s = none ↔ ¬pre <+: s := by
  rw [Option.eq_none_iff_forall_ne_some]
  constructor
  · rintro h ⟨r, rfl⟩
    exact h r (after?_append pre r)
  · rintro h r hr
    exact h ⟨r, (after?_eq_some_iff.1 hr).symm⟩

/-- A word without a certain character stands before the first such character. -/
theorem prefix_of_prefix_append_cons {pat t s : Text} {c : Char} (hc : c ∉ pat)
    (h : pat <+: t ++ c :: s) : pat <+: t := by
  rcases List.prefix_or_prefix_of_prefix h (List.prefix_append t _) with hp | ⟨u, rfl⟩
  · exact hp
  · cases u with
    | nil => simp
    | cons d u =>
      have hd : d = c := (List.cons_prefix_cons.1 ((List.prefix_append_right_inj t).1 h)).1
      simp [hd] at hc

/-- An occurrence is a part of the text. -/
theorem occurs_iff_infix {pat s : Text} : occurs pat s = true ↔ pat <:+: s := by
  induction s with
  | nil => simp [occurs]
  | cons c s ih =>
    rw [occurs, Bool.or_eq_true, ih, List.infix_cons_iff, Option.isSome_iff_ne_none, ne_eq,
      after?_eq_none_iff, not_not]

/-! ### Texts that are clear of a word -/

/-- **Whether a text is clear of a word**: the word does not occur in it, and the text does not end
in a proper beginning of the word. -/
def isClearOf (pat t : Text) : Bool :=
  !occurs pat t && pat.inits.all fun q => q = [] || q = pat || !q.isSuffixOf t

/-- A text is clear of a word if and only if the word does not occur in it, and no proper beginning of the
word is its end. -/
theorem isClearOf_iff {pat t : Text} :
    isClearOf pat t = true ↔
      ¬pat <:+: t ∧ ∀ q, q <+: pat → q ≠ [] → q ≠ pat → ¬q <:+ t := by
  simp only [isClearOf, Bool.and_eq_true, Bool.not_eq_true', List.all_eq_true, List.mem_inits,
    Bool.or_eq_true, decide_eq_true_eq, ← Bool.not_eq_true, occurs_iff_infix,
    List.isSuffixOf_iff_suffix, ne_eq]
  grind

/-- An end of a clear text is clear. -/
theorem isClearOf_of_cons {pat t : Text} {c : Char} (h : isClearOf pat (c :: t) = true) :
    isClearOf pat t = true := by
  rw [isClearOf_iff] at h ⊢
  refine ⟨fun hi => h.1 (hi.trans (List.suffix_cons c t).isInfix), fun q hq h₀ h₁ hs => ?_⟩
  exact h.2 q hq h₀ h₁ (hs.trans (List.suffix_cons c t))

/-- A text behind another one is clear of a word if both together are. -/
theorem isClearOf_of_append {pat u v : Text} (h : isClearOf pat (u ++ v) = true) :
    isClearOf pat v = true := by
  induction u with
  | nil => exact h
  | cons c u ih => exact ih (isClearOf_of_cons h)

/-- Characters that a word does not have may stand behind a text that the word does not occur in. -/
theorem isClearOf_append {pat u v tail : Text} (h : isClearOf pat (u ++ v) = true)
    (hne : tail ≠ []) (htail : ∀ c ∈ tail, c ∉ pat) : isClearOf pat (u ++ tail) = true := by
  have hu : ¬pat <:+: u := fun hi => (isClearOf_iff.1 h).1 (hi.trans (List.prefix_append u v).isInfix)
  refine isClearOf_iff.2 ⟨?_, fun q hq hqne _ hsuffix => ?_⟩
  · rintro ⟨x, y, hxy⟩
    rcases List.append_eq_append_iff.1 hxy with ⟨a, rfl, -⟩ | ⟨c, hc, rfl⟩
    · exact hu ⟨x, a, rfl⟩
    · rcases List.eq_nil_or_concat c with rfl | ⟨c, d, rfl⟩
      · exact hu ⟨x, [], by rw [hc]; simp⟩
      · rcases List.eq_nil_or_concat pat with rfl | ⟨p, e, rfl⟩
        · exact hu (List.nil_infix)
        · have hd : e = d := by
            have := congrArg List.getLast? hc
            simpa using this
          exact htail d (by simp) (by simp [hd])
  · -- the last character of a beginning of the word would be the last one of the text
    obtain ⟨x, hx⟩ := hsuffix
    obtain ⟨p, e, rfl⟩ := (List.eq_nil_or_concat q).resolve_left hqne
    obtain ⟨k, d, rfl⟩ := (List.eq_nil_or_concat tail).resolve_left hne
    have hd : e = d := by
      have := congrArg List.getLast? hx
      simpa using this
    exact htail d (by simp) (hq.subset (by simp [hd]))

/-- **A word does not start at a text that is clear of it**, whatever follows the text.

**Proof sketch.** If it did, one of the word and the text would be a beginning of the other. The word
is no beginning of the text, in which it does not occur; and the text, which ends in itself, is no
proper beginning of the word. -/
theorem after?_append_of_isClearOf {pat t : Text} (h : isClearOf pat t = true) (ht : t ≠ [])
    (s : Text) : after? pat (t ++ s) = none := by
  rw [isClearOf_iff] at h
  rw [after?_eq_none_iff]
  intro hp
  rcases List.prefix_or_prefix_of_prefix hp (List.prefix_append t s) with hpt | htp
  · exact h.1 hpt.isInfix
  · by_cases heq : t = pat
    · exact h.1 (heq ▸ List.infix_refl _)
    · exact h.2 t htp ht heq (List.suffix_refl t)

/-- A text is clear of every word whose first character it does not have. -/
theorem isClearOf_of_notMem {p : Char} {pat t : Text} (h : p ∉ t) :
    isClearOf (p :: pat) t = true := by
  refine isClearOf_iff.2 ⟨fun hi => h (hi.subset List.mem_cons_self), fun q hq h₀ _ hs => ?_⟩
  cases q with
  | nil => exact h₀ rfl
  | cons c q =>
    have hc : c = p := (List.cons_prefix_cons.1 hq).1
    exact h (hs.subset (hc ▸ List.mem_cons_self))

/-! ### Blanks and words -/

/-- The blanks are the space, the tab, the newline, the form feed and the carriage return. -/
theorem isBlank_iff {c : Char} :
    isBlank c = true ↔ c = ' ' ∨ c = '\t' ∨ c = '\n' ∨ c = '\x0c' ∨ c = '\r' := by
  simp [isBlank, or_assoc]

/-- A blank is no part of a word. -/
theorem isWordChar_eq_false_of_isBlank {c : Char} (h : isBlank c = true) :
    isWordChar c = false := by
  rcases isBlank_iff.1 h with rfl | rfl | rfl | rfl | rfl <;> decide

/-- A character of a word is no blank. -/
theorem isBlank_eq_false_of_isWordChar {c : Char} (h : isWordChar c = true) :
    isBlank c = false := by
  cases hb : isBlank c with
  | false => rfl
  | true => simp [isWordChar_eq_false_of_isBlank hb] at h

/-- A space is no character of a word. -/
theorem isWordChar_eq_false_of_isSpace {c : Char} (h : isSpace c = true) : isWordChar c = false := by
  have hrange : 0x2000 ≤ c.toNat ∧ c.toNat ≤ 0x200a → isWordChar c = false := by
    rintro ⟨hlow, hhigh⟩
    have hall : ∀ i < 11, isWordChar (Char.ofNat (0x2000 + i)) = false := by decide
    have hc := hall (c.toNat - 0x2000) (by omega)
    rwa [Nat.add_sub_cancel' hlow, Char.ofNat_toNat] at hc
  simp only [isSpace, Bool.or_eq_true, Bool.and_eq_true, decide_eq_true_eq] at h
  rcases h with (((((((((h | rfl) | rfl) | rfl) | rfl) | h) | rfl) | rfl) | rfl) | rfl) | rfl
  on_goal 6 => exact hrange h
  on_goal 1 => exact isWordChar_eq_false_of_isBlank h
  all_goals decide

/-- A character of a word is no space. -/
theorem isSpace_eq_false_of_isWordChar {c : Char} (h : isWordChar c = true) :
    isSpace c = false := by
  cases hspace : isSpace c with
  | false => rfl
  | true => simp [isWordChar_eq_false_of_isSpace hspace] at h

/-- Blanks at the start of a text are skipped, and then those behind them. -/
theorem skipBlanks_append {u : Text} (h : u.all isBlank = true) (s : Text) :
    skipBlanks (u ++ s) = skipBlanks s :=
  List.dropWhile_append_of_pos (List.all_eq_true.1 h)

/-- Nothing is skipped in front of a character that is no blank. -/
theorem skipBlanks_cons {c : Char} (h : isBlank c = false) (s : Text) :
    skipBlanks (c :: s) = c :: s :=
  List.dropWhile_cons_of_neg (by simp [h])

/-! ### Cuts at a character -/

/-- A text is cut at the first character of a kind. -/
theorem takeWhile_ne_append {c : Char} {u : Text} (h : c ∉ u) (s : Text) :
    (u ++ c :: s).takeWhile (· ≠ c) = u ∧ (u ++ c :: s).dropWhile (· ≠ c) = c :: s := by
  have hu : ∀ d ∈ u, decide (d ≠ c) = true := fun d hd => by
    simpa using ne_of_mem_of_not_mem hd h
  rw [List.takeWhile_append_of_pos hu, List.dropWhile_append_of_pos hu]
  simp

/-- A text without a character is taken whole up to it. -/
theorem takeWhile_ne_of_notMem {c : Char} {u : Text} (h : c ∉ u) :
    u.takeWhile (· ≠ c) = u ∧ u.dropWhile (· ≠ c) = [] := by
  have hu : ∀ d ∈ u, decide (d ≠ c) = true := fun d hd => by
    simpa using ne_of_mem_of_not_mem hd h
  exact ⟨List.takeWhile_eq_self_iff.2 hu, List.dropWhile_eq_nil_iff.2 hu⟩

end Text

namespace Scan

open Text

/-- **A word is read as a whole** if what follows it is no part of a word. -/
theorem word?_append {w s : Text} (hne : w ≠ []) (hw : w.all isWordChar = true)
    (hs : s.head?.any isWordChar = false) : word? (w ++ s) = some (w, s) := by
  have htake : s.takeWhile isWordChar = [] := by
    cases s with
    | nil => rfl
    | cons c s => exact List.takeWhile_cons_of_neg (by simpa using hs)
  have hdrop : s.dropWhile isWordChar = s := by
    cases s with
    | nil => rfl
    | cons c s => exact List.dropWhile_cons_of_neg (by simpa using hs)
  rw [word?, List.takeWhile_append_of_pos (List.all_eq_true.1 hw),
    List.dropWhile_append_of_pos (List.all_eq_true.1 hw), htake, hdrop, List.append_nil, if_neg hne]

/-- A word and what stands behind it. -/
theorem eq_of_word? {s w r : Text} (h : word? s = some (w, r)) :
    s.takeWhile isWordChar = w ∧ s.dropWhile isWordChar = r ∧ s = w ++ r := by
  unfold word? at h
  split at h
  · cases h
  · cases h
    exact ⟨rfl, rfl, List.takeWhile_append_dropWhile.symm⟩

/-- What is read as a word is one. -/
theorem isWord_of_word? {s w r : Text} (h : word? s = some (w, r)) :
    w ≠ [] ∧ w.all isWordChar = true := by
  unfold word? at h
  split at h
  · cases h
  · rename_i hne
    cases h
    exact ⟨hne, List.all_takeWhile⟩

/-- **An argument in parentheses is read as a whole**, trimmed. -/
theorem parenthesized?_append {a : Text} (h : a.all (!endsArgument ·) = true) (s : Text) :
    parenthesized? ('(' :: (a ++ ')' :: s)) = some (trim a, s) := by
  rw [parenthesized?, List.takeWhile_append_of_pos (List.all_eq_true.1 h),
    List.dropWhile_append_of_pos (List.all_eq_true.1 h)]
  simp [endsArgument]

/-- The text that an argument in parentheses is read from. -/
theorem exists_of_parenthesized? {s a r : Text} (h : parenthesized? s = some (a, r)) :
    ∃ u, u.all (!endsArgument ·) = true ∧ trim u = a ∧ s = '(' :: (u ++ ')' :: r) := by
  unfold parenthesized? at h
  split at h
  · rename_i s
    split at h
    · rename_i r' hr
      cases h
      exact ⟨_, List.all_takeWhile, rfl, by rw [← hr, List.takeWhile_append_dropWhile]⟩
    · cases h
  · cases h

end Scan

end ShaderWeave
