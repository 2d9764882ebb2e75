import Mathlib.Tactic.Linarith
import ShaderWeave.Proofs.Text.Lines
import ShaderWeave.Proofs.Text.Occurrence

set_option autoImplicit false

/-!
# Replacing a word

A word is replaced wherever it occurs, from left to right. A character that the word does not have keeps
what stands in front of it apart from what stands behind it; so a word without newlines is replaced line
by line.

## Main results

* `ShaderWeave.Text.replaceAll_append_cons` — parts of a text that a character keeps apart.
* `ShaderWeave.Text.flatMap_replaceAll_lines` — a word without newlines is replaced line by line.
* `ShaderWeave.Text.replaceAll_eq_self_iff` — where a replacement changes nothing.
-/

namespace ShaderWeave

namespace Text

variable {first : Char} {more new : Text}

/-- There is nothing to replace in the empty text. -/
theorem replaceAll_nil : replaceAll first more new [] = [] := by
  rw [replaceAll]

/-- A word at the start is replaced, and replacing goes on behind it. -/
theorem replaceAll_of_after? {s r : Text} (h : after? (first :: more) s = some r) :
    replaceAll first more new s = new ++ replaceAll first more new r := by
  cases s with
  | nil => cases h
  | cons c s =>
    rw [replaceAll]
    split
    · rename_i h'
      rw [h] at h'
      cases h'
      rfl
    · rename_i h'
      rw [h] at h'
      cases h'

/-- Where the word does not start, the character stays. -/
theorem replaceAll_of_none {c : Char} {s : Text} (h : after? (first :: more) (c :: s) = none) :
    replaceAll first more new (c :: s) = c :: replaceAll first more new s := by
  rw [replaceAll]
  split
  · rename_i h'
    rw [h] at h'
    cases h'
  · rfl

/-! ### Parts that a character keeps apart -/

/-- **A word is replaced in front of a character that it does not have** as it is elsewhere. -/
theorem replaceAll_append_cons {d : Char} (hword : d ∉ first :: more) (w s : Text) :
    replaceAll first more new (w ++ d :: s) =
      replaceAll first more new w ++ d :: replaceAll first more new s := by
  induction hn : w.length using Nat.strong_induction_on generalizing w with
  | _ n ih =>
  subst hn
  cases w with
  | nil =>
    have hnone : after? (first :: more) (d :: s) = none := by
      rw [after?_eq_none_iff]
      intro hp
      have := (List.cons_prefix_cons.1 hp).1
      exact hword (this ▸ List.mem_cons_self)
    rw [List.nil_append, replaceAll_of_none hnone, replaceAll_nil]
    rfl
  | cons c w =>
    cases hafter : after? (first :: more) (c :: w) with
    | none =>
      have hnone : after? (first :: more) (c :: (w ++ d :: s)) = none := by
        rw [after?_eq_none_iff] at hafter ⊢
        exact fun hp => hafter (prefix_of_prefix_append_cons (t := c :: w) hword hp)
      rw [List.cons_append, replaceAll_of_none hnone, replaceAll_of_none hafter,
        ih _ (Nat.lt_succ_self _) w rfl]
      rfl
    | some r =>
      have hlt : r.length < (c :: w).length := by
        have := congrArg List.length (after?_eq_some_iff.1 hafter)
        simp only [List.length_append, List.length_cons] at this ⊢
        omega
      have happend : after? (first :: more) (c :: w ++ d :: s) = some (r ++ d :: s) := by
        rw [after?_eq_some_iff.1 hafter, List.append_assoc, after?_append]
      rw [replaceAll_of_after? happend, replaceAll_of_after? hafter, ih _ hlt r rfl,
        List.append_assoc]

/-- A text that ends in a character that the word does not have is kept apart from what follows. -/
theorem replaceAll_concat_append {d : Char} (hword : d ∉ first :: more) (w s : Text) :
    replaceAll first more new (w ++ [d] ++ s) =
      replaceAll first more new (w ++ [d]) ++ replaceAll first more new s := by
  rw [List.append_assoc, List.singleton_append, replaceAll_append_cons hword,
    replaceAll_append_cons hword, replaceAll_nil, List.append_assoc, List.singleton_append]

/-- **A word without newlines is replaced line by line.** -/
theorem flatMap_replaceAll_lines (hword : '\n' ∉ first :: more) (new s : Text) :
    (lines s).flatMap (replaceAll first more new) = replaceAll first more new s := by
  have hlines : ∀ {ls : List Text}, IsLines ls →
      ls.flatMap (replaceAll first more new) = replaceAll first more new ls.flatten := by
    intro ls h
    induction h with
    | nil => exact replaceAll_nil.symm
    | last => simp
    | cons _ _ ih =>
      rw [List.flatMap_cons, ih, List.flatten_cons, replaceAll_concat_append hword]
  rw [hlines (isLines_lines s), flatten_lines]

/-- A word between spaces is replaced. -/
theorem replaceAll_between (hfirst : isSpace first = false) {a b : Text} (ha : a.all isSpace = true)
    (hb : b.all isSpace = true) :
    replaceAll first more new (a ++ (first :: more ++ b)) = a ++ (new ++ b) := by
  have hspaces : ∀ {u : Text}, u.all isSpace = true → ∀ v : Text,
      replaceAll first more new (u ++ v) = u ++ replaceAll first more new v := by
    intro u hu v
    induction u with
    | nil => rfl
    | cons c u ih =>
      rw [List.all_cons, Bool.and_eq_true] at hu
      have hnone : after? (first :: more) (c :: (u ++ v)) = none := by
        rw [after?_eq_none_iff]
        intro hp
        rw [(List.cons_prefix_cons.1 hp).1, hu.1] at hfirst
        cases hfirst
      rw [List.cons_append, replaceAll_of_none hnone, ih hu.2]
      rfl
  have hb' := hspaces hb []
  rw [List.append_nil, replaceAll_nil, List.append_nil] at hb'
  rw [hspaces ha, replaceAll_of_after? (after?_append _ _), hb']

/-! ### Where nothing changes -/

/-- A text stays as it is where the word does not occur. -/
theorem replaceAll_of_occurs {s : Text} (h : occurs (first :: more) s = false) :
    replaceAll first more new s = s := by
  induction s with
  | nil => exact replaceAll_nil
  | cons c s ih =>
    rw [occurs, Bool.or_eq_false_iff, Option.isSome_eq_false_iff, Option.isNone_iff_eq_none] at h
    rw [replaceAll_of_none h.1, ih h.2]

/-- A word that is replaced by itself stays. -/
theorem replaceAll_self (s : Text) : replaceAll first more (first :: more) s = s := by
  fun_induction replaceAll first more (first :: more) s with
  | case1 => rfl
  | case2 c s r h ih => rw [ih, after?_eq_some_iff.1 h]
  | case3 c s _ ih => rw [ih]

/-- **The length of a text with a word replaced**: each occurrence that is replaced counts, and there is
one if the word occurs. -/
theorem exists_length_replaceAll (s : Text) :
    ∃ n, (replaceAll first more new s).length + n * (first :: more).length =
        s.length + n * new.length ∧ (occurs (first :: more) s = true → n ≠ 0) := by
  fun_induction replaceAll first more new s with
  | case1 => exact ⟨0, by simp, fun h => by cases h⟩
  | case2 c s r h ih =>
    obtain ⟨n, hn, -⟩ := ih
    refine ⟨n + 1, ?_, fun _ => Nat.succ_ne_zero n⟩
    rw [after?_eq_some_iff.1 h, List.length_append, List.length_append]
    linarith
  | case3 c s h ih =>
    obtain ⟨n, hn, hoccurs⟩ := ih
    refine ⟨n, ?_, fun ho => hoccurs ?_⟩
    · simp only [List.length_cons] at hn ⊢
      omega
    · rwa [occurs, h, Option.isSome_none, Bool.false_or] at ho

/-- **A replacement changes nothing** exactly if the word does not occur or is what replaces it.

**Proof sketch.** If the text stays as it is, so does its length, and if the word occurs it is as long as
what replaces it. Then all that is replaced stays in its place, and the first occurrence shows that both
are the same. -/
theorem replaceAll_eq_self_iff {s : Text} :
    replaceAll first more new s = s ↔ new = first :: more ∨ occurs (first :: more) s = false := by
  constructor
  · intro h
    cases hoccurs : occurs (first :: more) s with
    | false => exact .inr rfl
    | true =>
      left
      obtain ⟨n, hn, hpos⟩ : ∃ n, (replaceAll first more new s).length + n * (first :: more).length =
          s.length + n * new.length ∧ (occurs (first :: more) s = true → n ≠ 0) :=
        exists_length_replaceAll s
      have hlength : new.length = (first :: more).length := by
        rw [h] at hn
        exact (Nat.eq_of_mul_eq_mul_left (Nat.pos_of_ne_zero (hpos hoccurs))
          (Nat.add_left_cancel hn)).symm
      clear hn hpos
      fun_induction replaceAll first more new s with
      | case1 => cases hoccurs
      | case2 c s r hafter =>
        rw [after?_eq_some_iff.1 hafter] at h
        exact (List.append_inj h hlength).1
      | case3 c s hafter ih =>
        refine ih (List.cons.inj h).2 ?_
        rwa [occurs, hafter, Option.isSome_none, Bool.false_or] at hoccurs
  · rintro (rfl | h)
    · exact replaceAll_self s
    · exact replaceAll_of_occurs h

end Text

end ShaderWeave
