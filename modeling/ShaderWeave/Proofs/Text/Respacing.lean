import ShaderWeave.Macro
import ShaderWeave.Proofs.Scan.OpenComment

set_option autoImplicit false

/-!
# Texts with other line breaks

Where templates are put together and conditionals dropped, spaces and newlines are left behind that
differ from one way to the other. Two texts are *respaced* if they are the same up to that: a run of
spaces with a newline may stand against another such run. No word, comment of a line or macro is cut
or joined by this, so macros are replaced alike in both texts.

## Main definitions

* `ShaderWeave.Text.IsBreak` — a run of spaces with a newline.
* `ShaderWeave.Text.Respaced` — two texts that are the same up to their breaks.
* `ShaderWeave.Text.unspaced` — a text without its spaces.

## Main results

* `ShaderWeave.Text.Respaced.unspaced_eq` — such texts are equal without their spaces.
* `ShaderWeave.Text.Respaced.of_spaces` — what follows spaces may follow breaks.
* `ShaderWeave.Text.Respaced.trans` — the relation is transitive.
* `ShaderWeave.MacroForm.replace_respaced` — macros are replaced alike in both.
-/

namespace ShaderWeave

open Scan

namespace Text

/-- **A break**: a run of spaces with a newline. -/
structure IsBreak (u : Text) : Prop where
  spaces : u.all isSpace = true
  newline : '\n' ∈ u

/-- A newline is a break. -/
theorem isBreak_newline : IsBreak ['\n'] :=
  ⟨by decide, by decide⟩

/-- A break with spaces behind it is a break. -/
theorem IsBreak.append_spaces {u v : Text} (hu : IsBreak u) (hv : v.all isSpace = true) :
    IsBreak (u ++ v) :=
  ⟨by rw [List.all_append, hu.spaces, hv]; rfl, List.mem_append_left _ hu.newline⟩

/-- A break with spaces in front of it is a break. -/
theorem IsBreak.spaces_append {u v : Text} (hv : v.all isSpace = true) (hu : IsBreak u) :
    IsBreak (v ++ u) :=
  ⟨by rw [List.all_append, hu.spaces, hv]; rfl, List.mem_append_right _ hu.newline⟩

/-- **A text without its spaces.** -/
def unspaced (s : Text) : Text :=
  s.filter (!isSpace ·)

/-- A text of spaces is empty without its spaces. -/
theorem unspaced_of_all {u : Text} (h : u.all isSpace = true) : unspaced u = [] :=
  List.filter_eq_nil_iff.2 fun c hc => by simp [List.all_eq_true.1 h c hc]

/-- Two texts in a row without spaces are each without its spaces. -/
theorem unspaced_append (s t : Text) : unspaced (s ++ t) = unspaced s ++ unspaced t :=
  List.filter_append ..

/-- **Two texts that are the same up to their breaks**, which stand against each other. -/
inductive Respaced : Text → Text → Prop where
  | nil : Respaced [] []
  | cons (c : Char) {s t : Text} (h : Respaced s t) : Respaced (c :: s) (c :: t)
  | gap {u v s t : Text} (hu : IsBreak u) (hv : IsBreak v) (h : Respaced s t) :
      Respaced (u ++ s) (v ++ t)

namespace Respaced

variable {s t : Text}

/-- A text is the same as itself up to its breaks. -/
theorem refl (s : Text) : Respaced s s := by
  induction s with
  | nil => exact .nil
  | cons c s ih => exact .cons c ih

/-- The relation goes both ways. -/
theorem symm (h : Respaced s t) : Respaced t s := by
  induction h with
  | nil => exact .nil
  | cons c _ ih => exact .cons c ih
  | gap hu hv _ ih => exact .gap hv hu ih

/-- **Two texts in a row** are the same up to their breaks if each is. -/
theorem append {u v : Text} (h : Respaced u v) (h' : Respaced s t) :
    Respaced (u ++ s) (v ++ t) := by
  induction h with
  | nil => exact h'
  | cons c _ ih => exact .cons c ih
  | gap hu hv _ ih =>
    rw [List.append_assoc, List.append_assoc]
    exact .gap hu hv ih

/-- The same text may stand in front of both. -/
theorem append_left (u : Text) (h : Respaced s t) : Respaced (u ++ s) (u ++ t) :=
  (refl u).append h

/-- **Respaced texts are equal without their spaces.** -/
theorem unspaced_eq (h : Respaced s t) : unspaced s = unspaced t := by
  induction h with
  | nil => rfl
  | cons c _ ih =>
    rw [unspaced, unspaced] at ih
    rw [unspaced, unspaced, List.filter_cons, List.filter_cons, ih]
  | gap hu hv _ ih =>
    rw [unspaced_append, unspaced_append, unspaced_of_all hu.spaces, unspaced_of_all hv.spaces, ih]

/-- **A character that is no space stands in both texts.** -/
theorem exists_cons {c : Char} (hc : isSpace c = false) (h : Respaced (c :: s) t) :
    ∃ t', t = c :: t' ∧ Respaced s t' := by
  generalize hcs : c :: s = cs at h
  cases h with
  | nil => cases hcs
  | cons d h =>
    cases hcs
    exact ⟨_, rfl, h⟩
  | @gap u v s' t' hu _ _ =>
    cases u with
    | nil => cases hu.newline
    | cons d u =>
      cases hcs
      have := List.all_eq_true.1 hu.spaces c List.mem_cons_self
      rw [hc] at this
      cases this

/-- **A part of a line in front of a character that is no space** stands in both texts. -/
theorem exists_append_cons {w r : Text} {c : Char} (hw : '\n' ∉ w) (hc : isSpace c = false)
    (h : Respaced (w ++ c :: r) t) : ∃ r', t = w ++ c :: r' ∧ Respaced r r' := by
  induction w generalizing t with
  | nil => exact h.exists_cons hc
  | cons d w ih =>
    rw [List.mem_cons, not_or] at hw
    generalize hs : d :: w ++ c :: r = s at h
    cases h with
    | nil => cases hs
    | cons e h =>
      cases hs
      obtain ⟨r', rfl, hr⟩ := ih hw.2 h
      exact ⟨r', rfl, hr⟩
    | @gap u v s' t' hu _ _ =>
      -- a break would reach to the newline, over the character that is no space
      exfalso
      have hnewline : '\n' ∉ d :: w := by simp [hw.1, hw.2]
      rcases List.append_eq_append_iff.1 hs with ⟨x, rfl, hx⟩ | ⟨x, hx, -⟩
      · cases x with
        | nil => exact hnewline (by simpa using hu.newline)
        | cons e x =>
          cases hx
          have := List.all_eq_true.1 hu.spaces c (by simp)
          rw [hc] at this
          cases this
      · exact hnewline (hx ▸ List.mem_append_left _ hu.newline)

/-- The texts are equal and consist of one line, or the same line ends in breaks in both. -/
theorem line_cases (h : Respaced s t) :
    (s = t ∧ '\n' ∉ s) ∨
      ∃ w u v s' t', '\n' ∉ w ∧ IsBreak u ∧ IsBreak v ∧ s = w ++ (u ++ s') ∧ t = w ++ (v ++ t') ∧
        Respaced s' t' := by
  induction h with
  | nil => exact .inl ⟨rfl, by simp⟩
  | @cons c s t h ih =>
    by_cases hc : c = '\n'
    · subst hc
      exact .inr ⟨[], ['\n'], ['\n'], s, t, by simp, isBreak_newline, isBreak_newline, rfl, rfl, h⟩
    · rcases ih with ⟨rfl, hs⟩ | ⟨w, u, v, s', t', hw, hu, hv, rfl, rfl, h'⟩
      · exact .inl ⟨rfl, by simp [Ne.symm hc, hs]⟩
      · exact .inr ⟨c :: w, u, v, s', t', by simp [Ne.symm hc, hw], hu, hv, rfl, rfl, h'⟩
  | @gap u v s t hu hv h _ => exact .inr ⟨[], u, v, s, t, by simp, hu, hv, rfl, rfl, h⟩

/-- **What follows spaces may follow breaks**, whatever the spaces are: a break takes in the spaces that
follow it.

**Proof sketch.** Along both texts, as long as they are within the spaces. Where one of them is past its
spaces and the other is not, what comes next in the former is spaces too, and its break takes it in. -/
theorem of_spaces {u v : Text} (h : Respaced (u ++ s) (v ++ t)) (hu : u.all isSpace = true)
    (hv : v.all isSpace = true) {x y : Text} (hx : IsBreak x) (hy : IsBreak y) :
    Respaced (x ++ s) (y ++ t) := by
  generalize hs : u ++ s = s₀ at h
  generalize ht : v ++ t = t₀ at h
  induction h generalizing u v s t x y with
  | nil =>
    obtain ⟨rfl, rfl⟩ := List.append_eq_nil_iff.1 hs
    obtain ⟨rfl, rfl⟩ := List.append_eq_nil_iff.1 ht
    exact .gap hx hy .nil
  | @cons c s₁ t₁ h ih =>
    rcases List.append_eq_cons_iff.1 hs with ⟨rfl, rfl⟩ | ⟨u, rfl, rfl⟩ <;>
      rcases List.append_eq_cons_iff.1 ht with ⟨rfl, rfl⟩ | ⟨v, rfl, rfl⟩
    · exact .gap hx hy (.cons c h)
    · rw [List.all_cons, Bool.and_eq_true] at hv
      have := ih (u := []) rfl hv.2 (hx.append_spaces (v := [c]) (by simp [hv.1])) hy rfl rfl
      simpa using this
    · rw [List.all_cons, Bool.and_eq_true] at hu
      have := ih (v := []) hu.2 rfl hx (hy.append_spaces (v := [c]) (by simp [hu.1])) rfl rfl
      simpa using this
    · rw [List.all_cons, Bool.and_eq_true] at hu hv
      exact ih hu.2 hv.2 hx hy rfl rfl
  | @gap p q s₁ t₁ hp hq h ih =>
    have hp' := hp.spaces
    have hq' := hq.spaces
    rcases List.append_eq_append_iff.1 hs with ⟨p, rfl, rfl⟩ | ⟨u, rfl, rfl⟩ <;>
      rcases List.append_eq_append_iff.1 ht with ⟨q, rfl, rfl⟩ | ⟨v, rfl, rfl⟩ <;>
      simp only [List.all_append, Bool.and_eq_true] at hu hv hp' hq'
    · rw [← List.append_assoc, ← List.append_assoc]
      exact .gap (hx.append_spaces hp'.2) (hy.append_spaces hq'.2) h
    · have := ih (u := []) rfl hv.2 (hx.append_spaces hp'.2) hy rfl rfl
      simpa using this
    · have := ih (v := []) hu.2 rfl hx (hy.append_spaces hq'.2) rfl rfl
      simpa using this
    · exact ih hu.2 hv.2 hx hy rfl rfl

/-! ### Three texts -/

/-- **What respaced texts start with**: the same spaces or two breaks, and behind them the same character
in front of respaced texts, or nothing. -/
structure StartAlike (s t : Text) : Prop where
  spaces : s.takeWhile isSpace = t.takeWhile isSpace ∨
    IsBreak (s.takeWhile isSpace) ∧ IsBreak (t.takeWhile isSpace)
  behind : trimStart s = [] ∧ trimStart t = [] ∨
    ∃ c s' t', trimStart s = c :: s' ∧ trimStart t = c :: t' ∧ Respaced s' t'

/-- Respaced texts start alike. -/
theorem startAlike (h : Respaced s t) : StartAlike s t := by
  induction h with
  | nil => exact ⟨.inl rfl, .inl ⟨rfl, rfl⟩⟩
  | @cons c s t h ih =>
    by_cases hc : isSpace c = true
    · have hspaces : ∀ u : Text, (c :: u).takeWhile isSpace = c :: u.takeWhile isSpace := fun u =>
        List.takeWhile_cons_of_pos hc
      refine ⟨?_, by simpa only [trimStart_cons_of_space hc] using ih.behind⟩
      rw [hspaces, hspaces]
      rcases ih.spaces with heq | ⟨hu, hv⟩
      · exact .inl (congrArg (c :: ·) heq)
      · exact .inr ⟨hu.spaces_append (v := [c]) (by simp [hc]), hv.spaces_append (v := [c]) (by simp [hc])⟩
    · have hspaces : ∀ u : Text, (c :: u).takeWhile isSpace = [] := fun u =>
        List.takeWhile_cons_of_neg hc
      refine ⟨.inl (by rw [hspaces, hspaces]), .inr ⟨c, s, t, ?_, ?_, h⟩⟩ <;>
        exact trimStart_eq_self (by simpa using hc)
  | @gap u v s t hu hv _ ih =>
    refine ⟨.inr ⟨?_, ?_⟩, ?_⟩
    · rw [List.takeWhile_append_of_pos (List.all_eq_true.1 hu.spaces)]
      exact hu.append_spaces List.all_takeWhile
    · rw [List.takeWhile_append_of_pos (List.all_eq_true.1 hv.spaces)]
      exact hv.append_spaces List.all_takeWhile
    · rw [trimStart_append hu.spaces, trimStart_append hv.spaces]
      exact ih.behind

/-- Texts that start alike are respaced. -/
theorem StartAlike.respaced (h : StartAlike s t) : Respaced s t := by
  have hsplit : ∀ u : Text, u = u.takeWhile isSpace ++ trimStart u := fun u =>
    List.takeWhile_append_dropWhile.symm
  have hbehind : Respaced (trimStart s) (trimStart t) := by
    rcases h.behind with ⟨hs, ht⟩ | ⟨c, s', t', hs, ht, hrest⟩
    · rw [hs, ht]
      exact .nil
    · rw [hs, ht]
      exact .cons c hrest
  rw [hsplit s, hsplit t]
  rcases h.spaces with heq | ⟨hu, hv⟩
  · rw [heq]
    exact hbehind.append_left _
  · exact .gap hu hv hbehind

/-- **The relation is transitive**: a run of spaces is cut off the three texts at once. -/
theorem trans {u : Text} (h : Respaced s t) (h' : Respaced t u) : Respaced s u := by
  induction hn : s.length using Nat.strong_induction_on generalizing s t u with
  | _ n ih =>
  subst hn
  have hst := h.startAlike
  have htu := h'.startAlike
  refine StartAlike.respaced ⟨?_, ?_⟩
  · rcases hst.spaces with heq | ⟨hs, ht⟩
    · rw [heq]
      exact htu.spaces
    · rcases htu.spaces with heq | ⟨-, hu⟩
      · exact .inr ⟨hs, heq ▸ ht⟩
      · exact .inr ⟨hs, hu⟩
  · rcases hst.behind with ⟨hs, ht⟩ | ⟨c, s', t', hs, ht, hrest⟩
    · rcases htu.behind with ⟨-, hu⟩ | ⟨d, _, _, ht', -, -⟩
      · exact .inl ⟨hs, hu⟩
      · rw [ht] at ht'
        cases ht'
    · rcases htu.behind with ⟨ht', -⟩ | ⟨d, t₁, u', ht', hu, hrest'⟩
      · rw [ht] at ht'
        cases ht'
      · obtain ⟨rfl, rfl⟩ := List.cons.inj (ht.symm.trans ht')
        have hlt : s'.length < s.length := by
          have := (List.dropWhile_suffix (l := s) isSpace).length_le
          rw [show s.dropWhile isSpace = c :: s' from hs, List.length_cons] at this
          omega
        exact .inr ⟨c, s', u', hs, hu, ih _ hlt hrest hrest' rfl⟩

/-! ### Comments -/

/-- Spaces at the start of a text belong to a block comment that is open there. -/
theorem throughBlockEnd_spaces_append {u : Text} (hu : u.all isSpace = true) (s : Text) :
    throughBlockEnd (u ++ s) = (u ++ (throughBlockEnd s).1, (throughBlockEnd s).2) := by
  induction u with
  | nil => rfl
  | cons c u ih =>
    rw [List.all_cons, Bool.and_eq_true] at hu
    rw [List.cons_append, throughBlockEnd, ih hu.2]
    · rfl
    · rintro r rfl -
      have := hu.1
      revert this
      decide

/-- The ends of block comments stand against each other. -/
theorem throughBlockEnd (h : Respaced s t) :
    Respaced (throughBlockEnd s).1 (Scan.throughBlockEnd t).1 ∧
      Respaced (Scan.throughBlockEnd s).2 (Scan.throughBlockEnd t).2 := by
  induction h with
  | nil => exact ⟨.nil, .nil⟩
  | @cons c s t h ih =>
    by_cases hend : c = '*' ∧ ∃ r, s = '/' :: r
    · obtain ⟨rfl, r, rfl⟩ := hend
      obtain ⟨r', rfl, hr⟩ := h.exists_cons (by decide)
      exact ⟨refl _, hr⟩
    · have hstep : ∀ {s}, (c = '*' → ∀ r, s ≠ '/' :: r) →
          Scan.throughBlockEnd (c :: s) =
            (c :: (Scan.throughBlockEnd s).1, (Scan.throughBlockEnd s).2) := by
        intro s hs
        rw [Scan.throughBlockEnd]
        exact fun r hc hr => hs hc r hr
      rw [hstep fun hc r hr => hend ⟨hc, r, hr⟩, hstep fun hc r hr => ?_]
      · exact ⟨.cons c ih.1, ih.2⟩
      · subst hr
        obtain ⟨r', rfl, -⟩ := h.symm.exists_cons (by decide)
        exact hend ⟨hc, r', rfl⟩
  | gap hu hv _ ih =>
    rw [throughBlockEnd_spaces_append hu.spaces, throughBlockEnd_spaces_append hv.spaces]
    exact ⟨.gap hu hv ih.1, ih.2⟩

/-- Comments start in both texts or in neither. -/
theorem comment?_eq_none {c : Char} (h : Respaced s t) (hc : comment? (c :: s) = none) :
    comment? (c :: t) = none := by
  rw [comment?_eq_none_iff, after?_eq_none_iff, after?_eq_none_iff] at hc ⊢
  have hback : ∀ {d : Char}, isSpace d = false → ¬[('/' : Char), d] <+: c :: s →
      ¬[('/' : Char), d] <+: c :: t := by
    rintro d hd hs ⟨r, hr⟩
    obtain ⟨rfl, rfl⟩ := List.cons.inj hr
    obtain ⟨r', rfl, -⟩ := h.symm.exists_cons hd
    exact hs ⟨r', rfl⟩
  exact ⟨hback (by decide) hc.1, hback (by decide) hc.2⟩

end Respaced

end Text

/-! ### Macros -/

namespace MacroForm

open Text

/-- **A form whose delimiters have no spaces.** -/
structure IsTight (m : MacroForm) : Prop where
  opening : isSpaceless m.opening = true
  close : isSpace m.close = false

/-- The delimiters of flags have no spaces. -/
theorem isTight_flag : flag.IsTight :=
  ⟨by decide, by decide⟩

/-- The delimiters of struct definitions have no spaces. -/
theorem isTight_struct : struct.IsTight :=
  ⟨by decide, by decide⟩

variable {α : Type} {m : MacroForm} {meaning : Text → Option α} {replacement : α → Text}

/-- The delimiters of such a form have no newline. -/
theorem IsTight.newline_notMem (hm : m.IsTight) : '\n' ∉ m.opening := fun h => by
  have := isSpace_of_isSpaceless hm.opening h
  revert this
  decide

/-- **The use of a macro at the start of a text**, by its parts. -/
theorem read_eq_some_iff (hm : m.IsTight) {s r : Text} {a : α} :
    m.read meaning s = some (a, r) ↔
      ∃ arg, s = m.opening ++ (arg ++ m.close :: r) ∧ (∀ c ∈ arg, m.ends c = false) ∧
        meaning arg = some a := by
  have hclose : m.ends m.close = true := by simp [ends]
  have hnewline : m.close ≠ '\n' := by
    intro h
    have := hm.close
    rw [h] at this
    revert this
    decide
  have hsplit : ∀ {arg}, (∀ c ∈ arg, m.ends c = false) →
      (arg ++ m.close :: r).takeWhile (!m.ends ·) = arg ∧
        (arg ++ m.close :: r).dropWhile (!m.ends ·) = m.close :: r := by
    intro arg harg
    rw [List.takeWhile_append_of_pos (by simpa using harg),
      List.dropWhile_append_of_pos (by simpa using harg)]
    simp [hclose]
  constructor
  · intro h
    unfold read at h
    split at h
    · cases h
    · rename_i r₁ hopen
      split at h
      · rename_i c t hdrop
        split at h
        · rename_i hc
          subst hc
          obtain ⟨b, hb, heq⟩ := Option.map_eq_some_iff.1 h
          cases heq
          refine ⟨r₁.takeWhile (!m.ends ·), ?_, fun c hc => ?_, hb⟩
          · rw [after?_eq_some_iff.1 hopen, ← hdrop, List.takeWhile_append_dropWhile]
          · simpa using List.mem_takeWhile_imp hc
        · cases h
      · cases h
  · rintro ⟨arg, rfl, harg, hmeaning⟩
    rw [read, after?_append]
    simp only [(hsplit harg).1, (hsplit harg).2, ↓reduceIte, hmeaning, Option.map_some]

/-- A comment stays as it is when items are replaced. -/
theorem replace_of_comment? {s t r : Text} (h : comment? s = some (t, r)) :
    m.replace meaning replacement s = t ++ m.replace meaning replacement r := by
  rw [replace, pieces_of_comment? h]
  rfl

/-- An item that is read is replaced, and replacing goes on behind it. -/
theorem replace_of_read {s r : Text} {a : α} (hc : comment? s = none)
    (h : m.read meaning s = some (a, r)) :
    m.replace meaning replacement s = replacement a ++ m.replace meaning replacement r := by
  rw [replace, pieces_of_read hc h]
  rfl

/-- Where no item is read, the character stays. -/
theorem replace_of_unread {c : Char} {s : Text} (hc : comment? (c :: s) = none)
    (h : m.read meaning (c :: s) = none) :
    m.replace meaning replacement (c :: s) = c :: m.replace meaning replacement s := by
  rw [replace, pieces_of_unread hc h]
  rfl

/-- Spaces at the start of a text stay as they are. -/
theorem replace_spaces_append (hm : m.IsTight) {u : Text} (hu : u.all isSpace = true) (s : Text) :
    m.replace meaning replacement (u ++ s) = u ++ m.replace meaning replacement s := by
  induction u with
  | nil => rfl
  | cons c u ih =>
    rw [List.all_cons, Bool.and_eq_true] at hu
    have hcomment : comment? (c :: (u ++ s)) = none := by
      refine comment?_cons_eq_none ?_ _
      rintro rfl
      have := hu.1
      revert this
      decide
    have hread : m.read meaning (c :: (u ++ s)) = none := by
      rw [Option.eq_none_iff_forall_ne_some]
      rintro ⟨a, r⟩ hr
      obtain ⟨arg, heq, -⟩ := (read_eq_some_iff hm).1 hr
      have hc := isSpace_of_isSpaceless hm.opening (c := m.first) (by simp [opening])
      rw [← (List.cons.inj heq).1, hu.1] at hc
      cases hc
    rw [List.cons_append, replace_of_unread hcomment hread, ih hu.2, List.cons_append]

/-- A line comment that ends in a break stays as it is. -/
theorem replace_line_append (hm : m.IsTight) {w u : Text} (hw : '\n' ∉ w) (hu : IsBreak u)
    (s : Text) :
    m.replace meaning replacement ('/' :: '/' :: (w ++ (u ++ s))) =
      '/' :: '/' :: (w ++ (u ++ m.replace meaning replacement s)) := by
  obtain ⟨x, y, rfl, hx⟩ := List.eq_append_cons_of_mem hu.newline
  have hy : y.all isSpace = true := by
    have := hu.spaces
    rw [List.all_append, List.all_cons, Bool.and_eq_true, Bool.and_eq_true] at this
    exact this.2.2
  let c : ClosedComment := .line (w ++ x) (by simp [hw, hx])
  have htext : '/' :: '/' :: (w ++ (x ++ '\n' :: y ++ s)) = c.text ++ (y ++ s) := by
    simp [c, ClosedComment.text]
  rw [htext, replace_of_comment? (comment?_closed c _), replace_spaces_append hm hy]
  simp [c, ClosedComment.text]

/-- The use of a macro stands in both texts. -/
theorem read_respaced (hm : m.IsTight) {s t r : Text} {a : α} (h : Respaced s t)
    (hr : m.read meaning s = some (a, r)) :
    ∃ r', m.read meaning t = some (a, r') ∧ Respaced r r' := by
  obtain ⟨arg, rfl, harg, hmeaning⟩ := (read_eq_some_iff hm).1 hr
  have hnewline : '\n' ∉ m.opening ++ arg := by
    rw [List.mem_append, not_or]
    refine ⟨hm.newline_notMem, fun hmem => ?_⟩
    have := harg _ hmem
    simp [ends] at this
  rw [← List.append_assoc] at h
  obtain ⟨r', rfl, hr'⟩ := h.exists_append_cons hnewline hm.close
  exact ⟨r', (read_eq_some_iff hm).2 ⟨arg, by rw [List.append_assoc], harg, hmeaning⟩, hr'⟩

/-- **Macros are replaced alike in respaced texts.**

**Proof sketch.** Along both texts. Breaks stay as they are. A line comment reaches to a break in both,
a block comment to the same end; the use of a macro stays on its line, so it is the same in both. -/
theorem replace_respaced (hm : m.IsTight) {s t : Text} (h : Respaced s t) :
    Respaced (m.replace meaning replacement s) (m.replace meaning replacement t) := by
  induction hn : s.length using Nat.strong_induction_on generalizing s t with
  | _ n ih =>
  subst hn
  cases h with
  | nil => exact .refl _
  | @gap u v s t hu hv h =>
    have hlt : s.length < (u ++ s).length := by
      have := List.length_pos_of_mem hu.newline
      rw [List.length_append]
      omega
    rw [replace_spaces_append hm hu.spaces, replace_spaces_append hm hv.spaces]
    exact .gap hu hv (ih _ hlt h rfl)
  | @cons c s t h =>
    cases hcomment : comment? (c :: s) with
    | some p =>
      unfold comment? at hcomment
      split at hcomment
      · -- a line comment
        rename_i s₁ heq
        obtain ⟨rfl, rfl⟩ := List.cons.inj heq
        obtain ⟨t₁, rfl, h₁⟩ := h.exists_cons (by decide)
        rcases h₁.line_cases with ⟨rfl, -⟩ | ⟨w, u, v, s', t', hw, hu, hv, rfl, rfl, h'⟩
        · exact .refl _
        · rw [replace_line_append hm hw hu, replace_line_append hm hw hv]
          refine .cons _ (.cons _ (.append_left w (.gap hu hv (ih _ ?_ h' rfl))))
          simp only [List.length_cons, List.length_append]
          omega
      · -- a block comment
        rename_i s₁ heq
        obtain ⟨rfl, rfl⟩ := List.cons.inj heq
        obtain ⟨t₁, rfl, h₁⟩ := h.exists_cons (by decide)
        have hlt : (throughBlockEnd s₁).2.length < ('/' :: '*' :: s₁).length := by
          have := congrArg List.length (throughBlockEnd_append s₁)
          rw [List.length_append] at this
          simp only [List.length_cons]
          omega
        rw [replace_of_comment? (comment?.eq_2 s₁), replace_of_comment? (comment?.eq_2 t₁)]
        exact .cons _ (.cons _ (h₁.throughBlockEnd.1.append (ih _ hlt h₁.throughBlockEnd.2 rfl)))
      · cases hcomment
    | none =>
      have hcomment' := h.comment?_eq_none hcomment
      cases hread : m.read meaning (c :: s) with
      | some p =>
        obtain ⟨a, r⟩ := p
        obtain ⟨r', hread', hr⟩ := read_respaced hm (.cons c h) hread
        rw [replace_of_read hcomment hread, replace_of_read hcomment' hread']
        refine .append_left _ (ih _ ?_ hr rfl)
        exact (m.reader meaning).length_lt hread
      | none =>
        -- were there a use in the other text, there would be one here
        have hread' : m.read meaning (c :: t) = none := by
          rw [Option.eq_none_iff_forall_ne_some]
          rintro ⟨a, r⟩ hr
          obtain ⟨r', hr', -⟩ := read_respaced hm (.cons c h.symm) hr
          rw [hread] at hr'
          cases hr'
        rw [replace_of_unread hcomment hread, replace_of_unread hcomment' hread']
        exact .cons c (ih _ (Nat.lt_succ_self _) h rfl)

end MacroForm

end ShaderWeave
