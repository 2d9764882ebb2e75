import ShaderWeave.Proofs.Text.Occurrence
import ShaderWeave.Proofs.Text.Trim

set_option autoImplicit false

/-!
# Reflowed texts

Two texts are reflows of each other if they have the same characters but for blanks at their ends and
for runs of blanks with a newline, which may differ as long as there is a newline in both. What stands
between two characters of the same line is the same in both texts. So tokens are the same, and no two
of them are joined or separated.

## Main definitions

* `ShaderWeave.Text.collapse` — a text with each run of spaces as one space.
* `ShaderWeave.Text.Reflow` — two texts that are reflows of each other.

## Main results

* `ShaderWeave.Text.Reflow.exists_cons` — a character that is no blank stands in both texts.
* `ShaderWeave.Text.Reflow.takeWhile`, `ShaderWeave.Text.Reflow.dropWhile` — cuts that pass over blanks
  leave reflows of each other.
* `ShaderWeave.Text.Reflow.takeWhile_eq` — cuts that stop at blanks leave equal texts.
* `ShaderWeave.Text.Reflow.collapse_trim` — the trimmed texts are equal up to the runs of spaces.
-/

namespace ShaderWeave

namespace Text

/-! ### Runs of spaces -/

/-- **A text with each run of spaces as one space.** -/
def collapse : Text → Text
  | [] => []
  | c :: s =>
    if isSpace c then
      if s.head?.any isSpace then collapse s else ' ' :: collapse s
    else c :: collapse s

/-- A character that is no space stays as it is. -/
theorem collapse_cons_of_not_space {c : Char} (h : isSpace c = false) (s : Text) :
    collapse (c :: s) = c :: collapse s := by
  simp [collapse, h]

/-- The spaces that a text starts with become one. -/
theorem collapse_cons_of_space {c : Char} (h : isSpace c = true) (s : Text) :
    collapse (c :: s) = ' ' :: collapse (trimStart s) := by
  induction s generalizing c with
  | nil => simp [collapse, h, trimStart]
  | cons d s ih =>
    cases hd : isSpace d with
    | true =>
      have htrim : trimStart (d :: s) = trimStart s := List.dropWhile_cons_of_pos hd
      rw [htrim, ← ih hd, collapse, if_pos h, if_pos (by simpa using hd)]
    | false =>
      have htrim : trimStart (d :: s) = d :: s := List.dropWhile_cons_of_neg (by simp [hd])
      rw [htrim, collapse, if_pos h, if_neg (by simp [hd])]

/-- A text without the spaces at its end is the trimmed one, with a space before it if the text starts
with one. -/
theorem collapse_trimEnd (s : Text) :
    collapse (trimEnd s) =
      if s.all isSpace then []
      else if s.head?.any isSpace then ' ' :: collapse (trim s) else collapse (trim s) := by
  cases s with
  | nil => rfl
  | cons c s =>
    cases hall : (c :: s).all isSpace with
    | true =>
      rw [trimEnd_of_all hall]
      rfl
    | false =>
      rw [if_neg Bool.false_ne_true, List.head?_cons, Option.any_some]
      by_cases hc : isSpace c = true
      · rw [if_pos hc, trimEnd_cons_of_not_all hall, collapse_cons_of_space hc, trimStart_trimEnd,
          trim, trimStart_cons_of_space hc]
      · rw [if_neg hc, trim, trimStart_eq_self (by simpa using hc)]

/-! ### Reflows -/

/-- **Two texts that are reflows of each other**: their characters are the same, but for blanks at
their ends and for runs of blanks with a newline, which stand against each other. -/
inductive Reflow : Text → Text → Prop where
  | blanks {u v : Text} (hu : u.all isBlank = true) (hv : v.all isBlank = true) : Reflow u v
  | cons (c : Char) {s t : Text} (h : Reflow s t) : Reflow (c :: s) (c :: t)
  | newline {u v s t : Text} (hu : u.all isBlank = true) (hv : v.all isBlank = true)
      (hnu : '\n' ∈ u) (hnv : '\n' ∈ v) (h : Reflow s t) : Reflow (u ++ s) (v ++ t)

namespace Reflow

variable {s t : Text}

/-- Reflow goes both ways. -/
theorem symm (h : Reflow s t) : Reflow t s := by
  induction h with
  | blanks hu hv => exact .blanks hv hu
  | cons c _ ih => exact .cons c ih
  | newline hu hv hnu hnv _ ih => exact .newline hv hu hnv hnu ih

/-- Reflows behind the same text are reflows. -/
theorem append_left (u : Text) (h : Reflow s t) : Reflow (u ++ s) (u ++ t) := by
  induction u with
  | nil => exact h
  | cons c u ih => exact .cons c ih

/-- A run of blanks with a newline starts with a blank. -/
theorem exists_blank {u : Text} (hu : u.all isBlank = true) (hn : '\n' ∈ u) (s : Text) :
    ∃ c r, u ++ s = c :: r ∧ isBlank c = true := by
  cases u with
  | nil => cases hn
  | cons c u => exact ⟨c, u ++ s, rfl, List.all_eq_true.1 hu c List.mem_cons_self⟩

/-- **A character that is no blank stands in both texts.** -/
theorem exists_cons {c : Char} (hc : isBlank c = false) (h : Reflow (c :: s) t) :
    ∃ t', t = c :: t' ∧ Reflow s t' := by
  generalize hcs : c :: s = cs at h
  cases h with
  | blanks hu _ =>
    subst hcs
    rw [List.all_cons, hc] at hu
    cases hu
  | cons d h =>
    cases hcs
    exact ⟨_, rfl, h⟩
  | @newline u v s' t' hu _ hnu _ _ =>
    obtain ⟨d, r, hr, hd⟩ := exists_blank hu hnu s'
    rw [hr] at hcs
    cases hcs
    rw [hc] at hd
    cases hd

/-- Only blanks stand against nothing. -/
theorem all_of_nil (h : Reflow [] t) : t.all isBlank = true := by
  generalize hnil : ([] : Text) = s at h
  cases h with
  | blanks _ hv => exact hv
  | cons => cases hnil
  | newline _ _ hnu _ _ =>
    rw [List.append_eq_nil_iff.1 hnil.symm |>.1] at hnu
    cases hnu

/-! ### Cuts -/

section PassingBlanks

variable {p : Char → Bool} (hp : ∀ c, isBlank c = true → p c = true)
include hp

/-- A test that blanks pass is passed by all characters of a text of blanks. -/
theorem forall_of_all_isBlank {u : Text} (hu : u.all isBlank = true) : ∀ c ∈ u, p c = true :=
  fun c hc => hp c (List.all_eq_true.1 hu c hc)

/-- **What stands before a character that is no blank.** -/
theorem takeWhile (h : Reflow s t) : Reflow (s.takeWhile p) (t.takeWhile p) := by
  induction h with
  | blanks hu hv =>
    rw [List.takeWhile_eq_self_iff.2 (forall_of_all_isBlank hp hu),
      List.takeWhile_eq_self_iff.2 (forall_of_all_isBlank hp hv)]
    exact .blanks hu hv
  | cons c _ ih =>
    rw [List.takeWhile_cons, List.takeWhile_cons]
    split
    · exact .cons c ih
    · exact .blanks rfl rfl
  | newline hu hv hnu hnv _ ih =>
    rw [List.takeWhile_append_of_pos (forall_of_all_isBlank hp hu),
      List.takeWhile_append_of_pos (forall_of_all_isBlank hp hv)]
    exact .newline hu hv hnu hnv ih

/-- **What stands from a character that is no blank on.** -/
theorem dropWhile (h : Reflow s t) : Reflow (s.dropWhile p) (t.dropWhile p) := by
  induction h with
  | blanks hu hv =>
    rw [List.dropWhile_eq_nil_iff.2 (forall_of_all_isBlank hp hu),
      List.dropWhile_eq_nil_iff.2 (forall_of_all_isBlank hp hv)]
    exact .blanks rfl rfl
  | cons c h ih =>
    rw [List.dropWhile_cons, List.dropWhile_cons]
    split
    · exact ih
    · exact .cons c h
  | newline hu hv _ _ _ ih =>
    rw [List.dropWhile_append_of_pos (forall_of_all_isBlank hp hu),
      List.dropWhile_append_of_pos (forall_of_all_isBlank hp hv)]
    exact ih

end PassingBlanks

/-- Reflows without the blanks at their start are reflows. -/
theorem skipBlanks (h : Reflow s t) : Reflow (skipBlanks s) (skipBlanks t) :=
  h.dropWhile fun _ hc => hc

/-- What follows skipped blanks is no blank. -/
theorem isBlank_of_skipBlanks {c : Char} {r : Text} (h : Text.skipBlanks s = c :: r) :
    isBlank c = false := by
  have := List.head?_dropWhile_not isBlank s
  rw [show s.dropWhile isBlank = c :: r from h] at this
  exact this

/-- Without blanks at the start the texts are both empty, or start with the same character. -/
theorem skipBlanks_cases (h : Reflow (Text.skipBlanks s) (Text.skipBlanks t)) :
    (Text.skipBlanks s = [] ∧ Text.skipBlanks t = []) ∨
      ∃ c s' t', Text.skipBlanks s = c :: s' ∧ Text.skipBlanks t = c :: t' ∧ Reflow s' t' := by
  cases hs : Text.skipBlanks s with
  | nil =>
    rw [hs] at h
    refine .inl ⟨rfl, ?_⟩
    cases ht : Text.skipBlanks t with
    | nil => rfl
    | cons c t' =>
      have hc : isBlank c = true := List.all_eq_true.1 h.all_of_nil c (by rw [ht]; simp)
      rw [isBlank_of_skipBlanks ht] at hc
      cases hc
  | cons c s' =>
    rw [hs] at h
    obtain ⟨t', ht, h'⟩ := h.exists_cons (isBlank_of_skipBlanks hs)
    exact .inr ⟨c, s', t', rfl, ht, h'⟩

section StoppingAtBlanks

variable {p : Char → Bool} (hp : ∀ c, isBlank c = true → p c = false)
include hp

/-- A cut that stops at blanks takes nothing from a text that starts with one. -/
theorem takeWhile_blank {c : Char} (hc : isBlank c = true) (s : Text) :
    (c :: s).takeWhile p = [] ∧ (c :: s).dropWhile p = c :: s :=
  ⟨List.takeWhile_cons_of_neg (by simp [hp c hc]), List.dropWhile_cons_of_neg (by simp [hp c hc])⟩

/-- A cut that stops at blanks leaves a text of blanks whole. -/
theorem takeWhile_of_all_isBlank {u : Text} (hu : u.all isBlank = true) :
    u.takeWhile p = [] ∧ u.dropWhile p = u := by
  cases u with
  | nil => exact ⟨rfl, rfl⟩
  | cons c u => exact takeWhile_blank hp (List.all_eq_true.1 hu c List.mem_cons_self) u

/-- **The same characters are taken** up to a blank, and reflows of each other are left. -/
theorem takeWhile_eq (h : Reflow s t) :
    s.takeWhile p = t.takeWhile p ∧ Reflow (s.dropWhile p) (t.dropWhile p) := by
  induction h with
  | blanks hu hv =>
    obtain ⟨htu, hdu⟩ := takeWhile_of_all_isBlank hp hu
    obtain ⟨htv, hdv⟩ := takeWhile_of_all_isBlank hp hv
    rw [htu, htv, hdu, hdv]
    exact ⟨rfl, .blanks hu hv⟩
  | cons c h ih =>
    rw [List.takeWhile_cons, List.takeWhile_cons, List.dropWhile_cons, List.dropWhile_cons]
    split
    · exact ⟨by rw [ih.1], ih.2⟩
    · exact ⟨rfl, .cons c h⟩
  | @newline u v s t hu hv hnu hnv h ih =>
    obtain ⟨c, r, hr, hc⟩ := exists_blank hu hnu s
    obtain ⟨c', r', hr', hc'⟩ := exists_blank hv hnv t
    have hreflow : Reflow (u ++ s) (v ++ t) := .newline hu hv hnu hnv h
    rw [hr, hr'] at hreflow ⊢
    obtain ⟨htake, hdrop⟩ := takeWhile_blank hp hc r
    obtain ⟨htake', hdrop'⟩ := takeWhile_blank hp hc' r'
    rw [htake, htake', hdrop, hdrop']
    exact ⟨rfl, hreflow⟩

end StoppingAtBlanks

/-- What follows a word without blanks. -/
theorem after? {w r : Text} (hw : ∀ c ∈ w, isBlank c = false) (h : Reflow s t)
    (hr : after? w s = some r) : ∃ r', Text.after? w t = some r' ∧ Reflow r r' := by
  induction w generalizing s t with
  | nil =>
    cases hr
    exact ⟨t, rfl, h⟩
  | cons c w ih =>
    rw [after?_eq_some_iff, List.cons_append] at hr
    subst hr
    obtain ⟨t', rfl, h'⟩ := h.exists_cons (hw c List.mem_cons_self)
    obtain ⟨r', hr', hrr'⟩ := ih (fun d hd => hw d (List.mem_cons_of_mem _ hd)) h' (after?_append w r)
    exact ⟨r', by rw [Text.after?, if_pos rfl, hr'], hrr'⟩

/-! ### Spaces -/

/-- A text of blanks is a text of spaces. -/
theorem all_isSpace_of_all_isBlank {u : Text} (hu : u.all isBlank = true) :
    u.all isSpace = true :=
  List.all_eq_true.2 (forall_of_all_isBlank (fun _ => isSpace_of_isBlank) hu)

/-- The texts consist of spaces both or neither. -/
theorem all_isSpace (h : Reflow s t) : s.all isSpace = t.all isSpace := by
  induction h with
  | blanks hu hv => rw [all_isSpace_of_all_isBlank hu, all_isSpace_of_all_isBlank hv]
  | cons c _ ih => rw [List.all_cons, List.all_cons, ih]
  | newline hu hv _ _ _ ih =>
    rw [List.all_append, List.all_append, ih, all_isSpace_of_all_isBlank hu,
      all_isSpace_of_all_isBlank hv]

/-- The texts start with spaces both or neither, if there is more in them than spaces. -/
theorem head?_isSpace (h : Reflow s t) (hs : s.all isSpace = false) :
    s.head?.any isSpace = t.head?.any isSpace := by
  cases h with
  | blanks hu _ =>
    rw [all_isSpace_of_all_isBlank hu] at hs
    cases hs
  | cons => rfl
  | @newline u v s t hu hv hnu hnv =>
    obtain ⟨c, r, hr, hc⟩ := exists_blank hu hnu s
    obtain ⟨c', r', hr', hc'⟩ := exists_blank hv hnv t
    rw [hr, hr']
    simp [isSpace_of_isBlank hc, isSpace_of_isBlank hc']

/-- **The trimmed texts are equal up to the runs of spaces.**

**Proof sketch.** Induction on the reflow. Spaces at the start are trimmed. A character that is no
space stays; behind it both texts are used up but for spaces, or both go on with a space, or both
without. -/
theorem collapse_trim (h : Reflow s t) : collapse (trim s) = collapse (trim t) := by
  induction h with
  | blanks hu hv =>
    rw [trim_eq_nil_iff.2 (all_isSpace_of_all_isBlank hu),
      trim_eq_nil_iff.2 (all_isSpace_of_all_isBlank hv)]
  | @cons c s t h ih =>
    cases hc : isSpace c with
    | true => rwa [trim, trim, trimStart_cons_of_space hc, trimStart_cons_of_space hc]
    | false =>
      have hcons : ∀ u : Text, collapse (trim (c :: u)) = c :: collapse (trimEnd u) := by
        intro u
        rw [trim, trimStart_eq_self (by simp [hc]), trimEnd_cons_of_not_all (by simp [hc]),
          collapse_cons_of_not_space hc]
      rw [hcons, hcons, collapse_trimEnd, collapse_trimEnd, h.all_isSpace, ih]
      cases hall : t.all isSpace with
      | true => rfl
      | false => rw [h.head?_isSpace (by rw [h.all_isSpace, hall])]
  | newline hu hv _ _ _ ih =>
    rw [trim, trimStart_append (all_isSpace_of_all_isBlank hu), trim,
      trimStart_append (all_isSpace_of_all_isBlank hv)]
    exact ih

end Reflow

end Text

end ShaderWeave
