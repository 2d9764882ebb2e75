import ShaderWeave.Binding.Declaration
import ShaderWeave.Proofs.Scan.Pieces
import ShaderWeave.Proofs.Text.Reflow

set_option autoImplicit false

/-!
# Declarations of reflowed programs

Reading a declaration does not depend on where its lines end. On texts that are reflows of each other
each reader reads the same, up to runs of spaces, and leaves reflows of each other; so both programs
have the same declarations in the same order.

One direction is enough for each reader, since being a reflow is symmetric: what is read from one text
is read from the other one.

## Main definitions

* `ShaderWeave.Binding.collapsed` — a binding with each run of spaces as one space.

## Main results

* `ShaderWeave.Scan.comment?_reflow` — comments end at the same place.
* `ShaderWeave.Declaration.read_reflow` — a declaration is read from both texts or from neither.
* `ShaderWeave.declarations_reflow` — the declarations are the same.
-/

namespace ShaderWeave

open Text Scan

/-! ### Comments -/

namespace Scan

variable {s t : Text}

/-- Behind a newline among blanks there are only blanks before the rest. -/
theorem skipBlanks_throughNewline {u : Text} (hu : u.all isBlank = true) (hn : '\n' ∈ u) (s : Text) :
    skipBlanks (throughNewline (u ++ s)).2 = skipBlanks s := by
  induction u with
  | nil => cases hn
  | cons c u ih =>
    rw [List.all_cons, Bool.and_eq_true] at hu
    rw [List.cons_append, throughNewline]
    split
    · exact skipBlanks_append hu.2 s
    · rename_i hc
      exact ih hu.2 ((List.mem_cons.1 hn).resolve_left (Ne.symm hc))

/-- What follows the first newline of a text of blanks is blanks. -/
theorem skipBlanks_throughNewline_of_all {u : Text} (hu : u.all isBlank = true) :
    skipBlanks (throughNewline u).2 = [] := by
  rw [← throughNewline_append u, List.all_append, Bool.and_eq_true] at hu
  exact List.dropWhile_eq_nil_iff.2 (List.all_eq_true.1 hu.2)

/-- What follows a line comment is a reflow of what follows it in the other text, once blanks are skipped.
-/
theorem throughNewline_reflow (h : Reflow s t) :
    Reflow (skipBlanks (throughNewline s).2) (skipBlanks (throughNewline t).2) := by
  induction h with
  | blanks hu hv =>
    rw [skipBlanks_throughNewline_of_all hu, skipBlanks_throughNewline_of_all hv]
    exact .blanks rfl rfl
  | cons c h ih =>
    rw [throughNewline, throughNewline]
    split
    · exact h.skipBlanks
    · exact ih
  | newline hu hv hnu hnv h =>
    rw [skipBlanks_throughNewline hu hnu, skipBlanks_throughNewline hv hnv]
    exact h.skipBlanks

/-- A character that does not end a block comment belongs to it. -/
theorem throughBlockEnd_cons {c : Char} (h : ∀ r, c = '*' → s ≠ '/' :: r) :
    (throughBlockEnd (c :: s)).2 = (throughBlockEnd s).2 := by
  rw [throughBlockEnd]
  exact fun r hc => h r hc

/-- The end of a block comment does not start among blanks. -/
theorem throughBlockEnd_of_all {u : Text} (hu : u.all isBlank = true) (s : Text) :
    (throughBlockEnd (u ++ s)).2 = (throughBlockEnd s).2 := by
  induction u with
  | nil => rfl
  | cons c u ih =>
    rw [List.all_cons, Bool.and_eq_true] at hu
    rw [List.cons_append, throughBlockEnd_cons, ih hu.2]
    rintro r rfl
    exact absurd hu.1 (by decide)

/-- What follows a block comment is a reflow of what follows it in the other text. -/
theorem throughBlockEnd_reflow (h : Reflow s t) :
    Reflow (throughBlockEnd s).2 (throughBlockEnd t).2 := by
  induction h with
  | @blanks u v hu hv =>
    have hnil : ∀ {u : Text}, u.all isBlank = true → (throughBlockEnd u).2 = [] := fun hu => by
      simpa [throughBlockEnd] using throughBlockEnd_of_all hu []
    rw [hnil hu, hnil hv]
    exact .blanks rfl rfl
  | @cons c s t h ih =>
    by_cases hend : c = '*' ∧ ∃ r, s = '/' :: r
    · obtain ⟨rfl, r, rfl⟩ := hend
      obtain ⟨r', rfl, hr⟩ := h.exists_cons (by decide)
      exact hr
    · have hend' : ¬(c = '*' ∧ ∃ r, t = '/' :: r) := by
        rintro ⟨hc, r, rfl⟩
        obtain ⟨r', rfl, -⟩ := h.symm.exists_cons (by decide)
        exact hend ⟨hc, r', rfl⟩
      rw [throughBlockEnd_cons fun r hc hs => hend ⟨hc, r, hs⟩,
        throughBlockEnd_cons fun r hc ht => hend' ⟨hc, r, ht⟩]
      exact ih
  | newline hu hv _ _ _ ih =>
    rw [throughBlockEnd_of_all hu, throughBlockEnd_of_all hv]
    exact ih

/-- **Comments end at the same place**, blanks behind them aside: a line comment at its newline, which
is in both texts, and a block comment at its end. -/
theorem comment?_reflow (h : Reflow s t) {x r : Text} (hr : comment? s = some (x, r)) :
    ∃ x' r', comment? t = some (x', r') ∧ Reflow (skipBlanks r) (skipBlanks r') := by
  unfold comment? at hr
  split at hr
  · cases hr
    obtain ⟨t₁, rfl, h₁⟩ := h.exists_cons (by decide)
    obtain ⟨t₂, rfl, h₂⟩ := h₁.exists_cons (by decide)
    exact ⟨_, _, rfl, throughNewline_reflow h₂⟩
  · cases hr
    obtain ⟨t₁, rfl, h₁⟩ := h.exists_cons (by decide)
    obtain ⟨t₂, rfl, h₂⟩ := h₁.exists_cons (by decide)
    exact ⟨_, _, rfl, (throughBlockEnd_reflow h₂).skipBlanks⟩
  · cases hr

/-! ### Tokens -/

/-- A word is read alike in a reflow. -/
theorem word?_reflow (h : Reflow s t) {w r : Text} (hr : word? s = some (w, r)) :
    ∃ r', word? t = some (w, r') ∧ Reflow r r' := by
  obtain ⟨htake, hdrop⟩ := h.takeWhile_eq (p := isWordChar) fun _ =>
    isWordChar_eq_false_of_isBlank
  unfold word? at hr ⊢
  rw [htake] at hr
  split at hr
  · cases hr
  · rename_i hne
    cases hr
    exact ⟨_, if_neg hne, hdrop⟩

/-- A keyword is read alike in a reflow. -/
theorem keyword?_reflow (h : Reflow s t) {w r : Text} (hr : keyword? w s = some r) :
    ∃ r', keyword? w t = some r' ∧ Reflow r r' := by
  unfold keyword? at hr
  split at hr
  · rename_i v r₁ hw
    obtain ⟨r', hr', hrr'⟩ := word?_reflow h hw
    split at hr
    · rename_i hv
      cases hr
      exact ⟨r', by rw [keyword?, hr']; exact if_pos hv, hrr'⟩
    · cases hr
  · cases hr

/-- The first newline ends an argument, if it stands among blanks. -/
theorem dropWhile_endsArgument {u : Text} (hu : u.all isBlank = true) (hn : '\n' ∈ u) (s : Text) :
    ∃ r, (u ++ s).dropWhile (!endsArgument ·) = '\n' :: r := by
  induction u with
  | nil => cases hn
  | cons c u ih =>
    rw [List.all_cons, Bool.and_eq_true] at hu
    by_cases hc : c = '\n'
    · subst hc
      exact ⟨u ++ s, List.dropWhile_cons_of_neg (by decide)⟩
    · have hends : endsArgument c = false := by
        rcases isBlank_iff.1 hu.1 with rfl | rfl | rfl | rfl | rfl
        · decide
        · decide
        · exact absurd rfl hc
        · decide
        · decide
      rw [List.cons_append, List.dropWhile_cons_of_pos (by simp [hends])]
      exact ih hu.2 ((List.mem_cons.1 hn).resolve_left (Ne.symm hc))

/-- An argument that is closed has no newline, so it is the same in both texts. -/
theorem argument_reflow (h : Reflow s t) {r : Text}
    (hr : s.dropWhile (!endsArgument ·) = ')' :: r) :
    ∃ r', t.dropWhile (!endsArgument ·) = ')' :: r' ∧
      t.takeWhile (!endsArgument ·) = s.takeWhile (!endsArgument ·) ∧ Reflow r r' := by
  induction h with
  | @blanks u v hu _ =>
    have hmem : ')' ∈ u := (List.dropWhile_suffix _).subset (hr ▸ List.mem_cons_self)
    exact absurd (List.all_eq_true.1 hu _ hmem) (by decide)
  | @cons c s t h ih =>
    rw [List.dropWhile_cons] at hr ⊢
    rw [List.takeWhile_cons, List.takeWhile_cons]
    split at hr
    · rename_i hc
      obtain ⟨r', hr', htake, hrr'⟩ := ih hr
      exact ⟨r', by rw [if_pos hc, hr'], by rw [if_pos hc, if_pos hc, htake], hrr'⟩
    · rename_i hc
      cases hr
      exact ⟨t, by rw [if_neg hc], by rw [if_neg hc, if_neg hc], h⟩
  | @newline u v s t hu _ hnu _ _ =>
    obtain ⟨r', hr'⟩ := dropWhile_endsArgument hu hnu s
    rw [hr'] at hr
    exact absurd (List.cons.inj hr).1 (by decide)

/-- An argument in parentheses is read alike in a reflow. -/
theorem parenthesized?_reflow (h : Reflow s t) {a r : Text}
    (hr : parenthesized? s = some (a, r)) :
    ∃ r', parenthesized? t = some (a, r') ∧ Reflow r r' := by
  unfold parenthesized? at hr
  split at hr
  · obtain ⟨t₁, rfl, h₁⟩ := h.exists_cons (by decide)
    split at hr
    · rename_i r₁ hclose
      cases hr
      obtain ⟨r', hr', htake, hrr'⟩ := argument_reflow h₁ hclose
      refine ⟨r', ?_, hrr'⟩
      rw [parenthesized?, hr', htake]
      rfl
    · cases hr
  · cases hr

end Scan

/-! ### The parts of a declaration -/

/-- **A name with each run of spaces as one space.** -/
def collapsedName (s : String) : String :=
  .ofList (collapse s.toList)

/-- **A binding with each run of spaces as one space**, in its kind, its access mode and its type. -/
def Binding.collapsed (b : Binding) : Binding :=
  { b with
    kind := collapsedName b.kind
    access := b.access.map collapsedName
    type := collapsedName b.type }

/-- A name made of a text has its runs of spaces as one space if the text does. -/
theorem collapsedName_ofList (s : Text) : collapsedName (.ofList s) = .ofList (collapse s) := by
  rw [collapsedName, String.toList_ofList]

namespace Declaration

variable {s t : Text}

/-- What stands up to a certain character that is no blank, and from it on. -/
theorem cut_reflow {x : Char} (hx : isBlank x = false) (h : Reflow s t) :
    Reflow (s.takeWhile (· ≠ x)) (t.takeWhile (· ≠ x)) ∧
      Reflow (s.dropWhile (· ≠ x)) (t.dropWhile (· ≠ x)) := by
  have hp : ∀ c, isBlank c = true → decide (c ≠ x) = true := by
    rintro c hc
    rw [decide_eq_true_eq]
    rintro rfl
    rw [hx] at hc
    cases hc
  exact ⟨h.takeWhile hp, h.dropWhile hp⟩

/-- A cut ends at the character, or at the end of the text. -/
theorem dropWhile_eq_cons {x c : Char} {s r : Text} (h : s.dropWhile (· ≠ x) = c :: r) : c = x := by
  have := List.head?_dropWhile_not (fun c => decide (c ≠ x)) s
  rw [h] at this
  simpa using this

/-- What stands behind a certain character that is no blank. -/
theorem behind_reflow {x c : Char} (hx : isBlank x = false) (h : Reflow s t) {r : Text}
    (hr : s.dropWhile (· ≠ x) = c :: r) :
    ∃ r', t.dropWhile (· ≠ x) = c :: r' ∧ Reflow r r' := by
  have hdrop := (cut_reflow hx h).2
  rw [hr] at hdrop
  exact hdrop.exists_cons (by rw [dropWhile_eq_cons hr, hx])

/-- The text from a certain character on is empty in both texts or in neither. -/
theorem drop_one_reflow {x : Char} (hx : isBlank x = false) (h : Reflow s t) :
    Reflow ((s.dropWhile (· ≠ x)).drop 1) ((t.dropWhile (· ≠ x)).drop 1) := by
  cases hs : s.dropWhile (· ≠ x) with
  | cons c r =>
    obtain ⟨r', hr', hrr'⟩ := behind_reflow hx h hs
    rw [hr']
    exact hrr'
  | nil =>
    cases ht : t.dropWhile (· ≠ x) with
    | nil => exact .blanks rfl rfl
    | cons c r =>
      obtain ⟨r', hr', -⟩ := behind_reflow hx h.symm ht
      rw [hr'] at hs
      cases hs

/-- What is trimmed to nothing in one text is so in the other one. -/
theorem trim_eq_nil_iff_of_reflow (h : Reflow s t) : trim s = [] ↔ trim t = [] := by
  rw [trim_eq_nil_iff, trim_eq_nil_iff, h.all_isSpace]

/-- An attribute is read alike in a reflow. -/
theorem readAttribute_reflow {name : Text} (hname : ∀ c ∈ '@' :: name, isBlank c = false)
    (h : Reflow s t) {n : UInt32} {r : Text} (hr : readAttribute name s = some (n, r)) :
    ∃ r', readAttribute name t = some (n, r') ∧ Reflow r r' := by
  simp only [readAttribute, bind, Option.bind_eq_some_iff, Prod.exists, Option.pure_def,
    Option.some.injEq, Prod.mk.injEq] at hr
  obtain ⟨r₁, h₁, a, r₂, h₂, n', hn, rfl, rfl⟩ := hr
  obtain ⟨r₁', h₁', hr₁⟩ := h.skipBlanks.after? hname h₁
  obtain ⟨r₂', h₂', hr₂⟩ := parenthesized?_reflow hr₁.skipBlanks h₂
  refine ⟨r₂', ?_, hr₂⟩
  rw [readAttribute, h₁']
  simp only [Option.bind_eq_bind, Option.bind_some, h₂', hn]
  rfl

/-- The access mode is the same up to runs of spaces, or missing in both texts. -/
theorem access_reflow (h : Reflow s t) :
    (if trim s = [] then none else some (trim s)).map collapse =
      (if trim t = [] then none else some (trim t)).map collapse := by
  by_cases hnil : trim s = []
  · rw [if_pos hnil, if_pos ((trim_eq_nil_iff_of_reflow h).1 hnil)]
  · rw [if_neg hnil, if_neg fun ht => hnil ((trim_eq_nil_iff_of_reflow h).2 ht), Option.map_some,
      Option.map_some, h.collapse_trim]

/-- The kind of a variable and its access mode are read alike in a reflow, but for runs of spaces. -/
theorem readKind_reflow (h : Reflow s t) {kind r : Text} {access : Option Text}
    (hr : readKind s = some (kind, access, r)) :
    ∃ kind' access' r', readKind t = some (kind', access', r') ∧ collapse kind = collapse kind' ∧
      access.map collapse = access'.map collapse ∧ Reflow r r' := by
  unfold readKind at hr
  split at hr
  · rename_i s
    obtain ⟨t₁, rfl, h₁⟩ := h.exists_cons (by decide)
    split at hr
    · rename_i c r₁ hdrop
      simp only [Option.ite_none_left_eq_some, Option.some.injEq, Prod.mk.injEq] at hr
      obtain ⟨hne, rfl, rfl, rfl⟩ := hr
      obtain ⟨r', hr', hrr'⟩ := behind_reflow (by decide) h₁ hdrop
      have hinner := (cut_reflow (x := '>') (by decide) h₁).1
      have hkind := (cut_reflow (x := ',') (by decide) hinner).1
      have haccess := (cut_reflow (x := ',') (by decide)
        (drop_one_reflow (x := ',') (by decide) hinner)).1
      refine ⟨_, _, skipBlanks r', ?_, hkind.collapse_trim, access_reflow haccess,
        hrr'.skipBlanks⟩
      rw [readKind, hr']
      exact if_neg fun hnil => hne ((trim_eq_nil_iff_of_reflow hkind).2 hnil)
    · cases hr
  · rename_i hs
    cases hr
    refine ⟨Binding.handleKind.toList, none, t, ?_, rfl, rfl, h⟩
    unfold readKind
    split
    · obtain ⟨s', rfl, -⟩ := h.symm.exists_cons (by decide)
      exact absurd rfl (hs s')
    · rfl

/-- A type is read alike in a reflow, but for runs of spaces. -/
theorem readType_reflow (h : Reflow s t) {type r : Text} (hr : readType s = some (type, r)) :
    ∃ type' r', readType t = some (type', r') ∧ collapse type = collapse type' ∧ Reflow r r' := by
  unfold readType at hr
  split at hr
  · rename_i s
    obtain ⟨t₁, rfl, h₁⟩ := h.exists_cons (by decide)
    split at hr
    · rename_i c r₁ hdrop
      simp only [Option.ite_none_left_eq_some, Option.some.injEq, Prod.mk.injEq] at hr
      obtain ⟨hne, rfl, rfl⟩ := hr
      obtain ⟨r', hr', hrr'⟩ := behind_reflow (by decide) h₁ hdrop
      have htake := (cut_reflow (x := ';') (by decide) h₁).1
      refine ⟨_, r', ?_, htake.collapse_trim, hrr'⟩
      rw [readType, hr']
      exact if_neg fun hnil => hne ((trim_eq_nil_iff_of_reflow htake).2 hnil)
    · cases hr
  · cases hr

/-- **A declaration is read from both texts**, up to runs of spaces, and reflows of each other are
left. -/
theorem read_reflow {stages : StageSet} (h : Reflow s t) {b : Binding} {r : Text}
    (hr : read stages s = some (b, r)) :
    ∃ b' r', read stages t = some (b', r') ∧ b.collapsed = b'.collapsed ∧ Reflow r r' := by
  have hgroup : ∀ c ∈ '@' :: "group".toList, isBlank c = false := by simp [isBlank]
  have hbinding : ∀ c ∈ '@' :: "binding".toList, isBlank c = false := by simp [isBlank]
  simp only [read, bind, Option.bind_eq_some_iff, Prod.exists, Option.pure_def,
    Option.some.injEq, Prod.mk.injEq] at hr
  obtain ⟨g, r₁, h₁, n, r₂, h₂, r₃, h₃, k, a, r₄, h₄, v, r₅, h₅, ty, r₆, h₆, rfl, rfl⟩ := hr
  obtain ⟨r₁', h₁', e₁⟩ := readAttribute_reflow hgroup h h₁
  obtain ⟨r₂', h₂', e₂⟩ := readAttribute_reflow hbinding e₁ h₂
  obtain ⟨r₃', h₃', e₃⟩ := keyword?_reflow e₂.skipBlanks h₃
  obtain ⟨k', a', r₄', h₄', hk, ha, e₄⟩ := readKind_reflow e₃.skipBlanks h₄
  obtain ⟨r₅', h₅', e₅⟩ := word?_reflow e₄ h₅
  obtain ⟨ty', r₆', h₆', hty, e₆⟩ := readType_reflow e₅.skipBlanks h₆
  refine ⟨⟨g, n, .ofList k', a'.map .ofList, .ofList v, .ofList ty', stages⟩, r₆', ?_, ?_, e₆⟩
  · rw [read, h₁']
    simp only [Option.bind_eq_bind, Option.bind_some, h₂', h₃', h₄', h₅', h₆']
    rfl
  · have haccess : (a.map String.ofList).map collapsedName =
        (a'.map String.ofList).map collapsedName := by
      have hmap : ∀ x : Option Text, (x.map String.ofList).map collapsedName =
          (x.map collapse).map String.ofList := by
        intro x
        cases x with
        | none => rfl
        | some x => simp [collapsedName_ofList]
      rw [hmap, hmap, ha]
    simp only [Binding.collapsed, collapsedName_ofList, hk, hty, haccess]

/-! ### All declarations -/

/-- A declaration starts with `@`. -/
theorem reader_read_eq_none (stages : StageSet) {c : Char} (hc : c ≠ '@') (s : Text) :
    (reader stages).read (c :: s) = none := by
  simp only [reader]
  split
  · rename_i heq
    exact absurd (List.cons.inj heq).1 hc
  · rfl

/-- **A declaration is read alike in a reflow**, but for runs of spaces in it. -/
theorem reader_read_reflow {stages : StageSet} (h : Reflow s t) {b : Binding} {r : Text}
    (hr : (reader stages).read s = some (b, r)) :
    ∃ b' r', (reader stages).read t = some (b', r') ∧ b.collapsed = b'.collapsed ∧
      Reflow r r' := by
  simp only [reader] at hr
  split at hr
  · obtain ⟨t₁, rfl, -⟩ := h.exists_cons (by decide)
    exact read_reflow h hr
  · cases hr

/-- Blanks at the start of a program declare nothing. -/
theorem declarations_skipBlanks (stages : StageSet) (s : Text) :
    declarations stages (skipBlanks s) = declarations stages s := by
  induction s with
  | nil => rfl
  | cons c s ih =>
    cases hc : isBlank c with
    | false => rw [skipBlanks_cons hc]
    | true =>
      have hslash : c ≠ '/' := by
        rintro rfl
        exact absurd hc (by decide)
      have hat : c ≠ '@' := by
        rintro rfl
        exact absurd hc (by decide)
      have hskip : skipBlanks (c :: s) = skipBlanks s := List.dropWhile_cons_of_pos hc
      rw [hskip, ih, declarations, declarations,
        items_of_unread (comment?_cons_eq_none hslash s) (reader_read_eq_none stages hat s)]

end Declaration

open Declaration in
/-- **The declarations of programs that are reflows of each other are the same**, up to runs of spaces
in them, and in the same order; blanks at the start aside.

**Proof sketch.** Induction on the length of the program. Without blanks at the start the programs
are both empty or start with the same character. There both have a comment, or a declaration, or
neither, and what follows are reflows of each other again, up to blanks at the start. -/
theorem declarations_reflow {stages : StageSet} {s t : Text}
    (h : Reflow (skipBlanks s) (skipBlanks t)) :
    (declarations stages s).map Binding.collapsed =
      (declarations stages t).map Binding.collapsed := by
  -- a comment or a declaration is passed in one step, so the induction is on the length and not on
  -- the reflow
  induction hn : s.length using Nat.strong_induction_on generalizing s t with
  | _ n ih =>
    have hlength : (skipBlanks s).length ≤ n := hn ▸ (skipBlanks_suffix s).length_le
    rw [← declarations_skipBlanks stages s, ← declarations_skipBlanks stages t]
    rcases h.skipBlanks_cases with ⟨hs, ht⟩ | ⟨c, s', t', hs, ht, h'⟩
    · rw [hs, ht]
    rw [hs, ht] at h ⊢
    rw [hs] at hlength
    cases hcomment : comment? (c :: s') with
    | some p =>
      obtain ⟨x, r⟩ := p
      obtain ⟨x', r', hcomment', hr⟩ := comment?_reflow h hcomment
      rw [declarations, declarations, items_of_comment? hcomment, items_of_comment? hcomment']
      exact ih r.length ((length_lt_of_comment? hcomment).trans_le hlength) hr rfl
    | none =>
      have hcomment' : comment? (c :: t') = none := by
        refine Option.eq_none_iff_forall_ne_some.2 fun p hp => ?_
        obtain ⟨_, _, hs', -⟩ := comment?_reflow h.symm hp
        rw [hs'] at hcomment
        cases hcomment
      cases hread : (reader stages).read (c :: s') with
      | some p =>
        obtain ⟨b, r⟩ := p
        obtain ⟨b', r', hread', hb, hr⟩ := reader_read_reflow h hread
        rw [declarations, declarations, items_of_read hcomment hread,
          items_of_read hcomment' hread', List.map_cons, List.map_cons, hb]
        have hshorter := ((reader stages).length_lt hread).trans_le hlength
        exact congrArg _ (ih r.length hshorter hr.skipBlanks rfl)
      | none =>
        have hread' : (reader stages).read (c :: t') = none := by
          refine Option.eq_none_iff_forall_ne_some.2 fun p hp => ?_
          obtain ⟨_, _, hs', -⟩ := reader_read_reflow h.symm hp
          rw [hs'] at hread
          cases hread
        rw [declarations, declarations, items_of_unread hcomment hread,
          items_of_unread hcomment' hread']
        refine ih s'.length ?_ h'.skipBlanks rfl
        rw [List.length_cons] at hlength
        omega

end ShaderWeave
