import ShaderWeave.Proofs.Bytewise.Scan

set_option autoImplicit false

/-!
# Braces in bytes

The searches for the brace that matches an opening one, and for the `}}` that closes a double block, for a
program that holds the bytes of a text. Both count the braces that are open. The first search may not come
to a closing brace while none is open; it starts at an opening one, so it does not.

## Main definitions

* `ShaderWeave.Bytewise.findMatchingBrace` — the offset of the matching brace.
* `ShaderWeave.Bytewise.findDoubleClose` — the offset of the closing `}}`.

## Main results

* `ShaderWeave.Bytewise.findMatchingBrace_place`, `ShaderWeave.Bytewise.findDoubleClose_place` — nothing
  goes wrong in the searches, and they find what the cuts of the text are made at.
-/

namespace ShaderWeave

namespace Bytewise

open Text Bytes Scan

variable {S s r : Text}

/-- One turn of the search for the matching brace, with the number of open braces. -/
def braceStep (i : Nat) (b : UInt8) (depth : Nat) : Guarded (Step Nat (Option Nat)) :=
  if b = ascii '{' then .ok (.next (i + 1) (depth + 1))
  else if b = ascii '}' then
    if depth = 0 then .error .depth
    else if depth - 1 = 0 then .ok (.done (some i))
    else .ok (.next (i + 1) (depth - 1))
  else .ok (.next (i + 1) depth)

/-- **The offset of the brace that matches an opening one.** -/
def findMatchingBrace (src : Bytes) (opening : Nat) : Guarded (Option Nat) :=
  scan src braceStep (fun _ => .ok none) opening 0

/-- One turn of the search for the closing `}}`, with the number of open braces. -/
def doubleStep (src : Bytes) (i : Nat) (b : UInt8) (depth : Nat) : Guarded (Step Nat (Option Nat)) :=
  if b = ascii '{' then .ok (.next (i + 1) (depth + 1))
  else if b = ascii '}' ∧ 0 < depth then .ok (.next (i + 1) (depth - 1))
  else if b = ascii '}' ∧ src[i + 1]? = some (ascii '}') then .ok (.done (some i))
  else .ok (.next (i + 1) depth)

/-- **The offset of the `}}` that closes a double block.** -/
def findDoubleClose (src : Bytes) (bodyStart : Nat) : Guarded (Option Nat) :=
  scan src (doubleStep src) (fun _ => .ok none) bodyStart 0

/-! ### The matching brace -/

/-- The turn of the search for the matching brace at an ASCII character. -/
theorem braceStep_place {c : Char} (hc : c.toNat < 128) (h : c :: r <:+ S) (depth : Nat) :
    braceStep (place S (c :: r)) (ascii c) depth =
      if c = '{' then .ok (.next (place S r) (depth + 1))
      else if c = '}' then
        if depth = 0 then .error .depth
        else if depth - 1 = 0 then .ok (.done (some (place S (c :: r))))
        else .ok (.next (place S r) (depth - 1))
      else .ok (.next (place S r) depth) := by
  simp only [braceStep, ascii_inj (a := '{') (by decide) hc, ascii_inj (a := '}') (by decide) hc,
    place_cons hc h]

/-- The place of the brace at which a cut is made. -/
def placeOfBrace (S : Text) (cut : Option (Text × Text)) : Option Nat :=
  cut.map fun p => place S ('}' :: p.2)

/-- The place of the brace is known from what stands behind it. -/
@[simp] theorem placeOfBrace_map (S : Text) (cut : Option (Text × Text)) (f : Text → Text) :
    placeOfBrace S (cut.map fun p => (f p.1, p.2)) = placeOfBrace S cut := by
  simp [placeOfBrace, Function.comp_def]

/-- **The matching brace is the one at which a cut is made**, and the number of open braces never falls
below zero. -/
theorem findMatchingBrace_place (h : '{' :: s <:+ S) :
    findMatchingBrace (utf8 S) (place S ('{' :: s)) = .ok (placeOfBrace S (cutAtBrace? 0 s)) := by
  have hopen : ('{' : Char).toNat < 128 := by decide
  have hclose : ('}' : Char).toNat < 128 := by decide
  have hcomment : comment? ('{' :: s) = none := comment?_cons_eq_none (by decide) s
  -- behind the opening brace it is open, and so are as many more as the cut has met
  have hfollows : FollowsLive S braceStep (fun _ => .ok none)
      (fun r depth => (r = '{' :: s ∧ depth = 0) ∨
        ∃ d, depth = d + 1 ∧ placeOfBrace S (cutAtBrace? d r) = placeOfBrace S (cutAtBrace? 0 s))
      (placeOfBrace S (cutAtBrace? 0 s)) := by
    refine ⟨?_, ?_, ?_, ?_, ?_⟩
    · rintro depth (⟨hnil, -⟩ | ⟨d, rfl, hcut⟩)
      · cases hnil
      · rw [← hcut, cutAtBrace?]
        rfl
    · intro i b depth _ hb
      rw [braceStep, if_neg (ne_ascii_of_high hb hopen), if_neg (ne_ascii_of_high hb hclose)]
    · rintro c t depth hc hlive (⟨heq, -⟩ | ⟨d, rfl, hcut⟩)
      · rw [(List.cons.inj heq).1] at hc
        exact absurd hc (by decide)
      · have hc₁ : c ≠ '{' := by rintro rfl; exact absurd hc (by decide)
        have hc₂ : c ≠ '}' := by rintro rfl; exact absurd hc (by decide)
        refine .inr ⟨d, rfl, ?_⟩
        rw [← hcut, cutAtBrace?_of_live hlive]
        simp [hc₁, hc₂]
    · rintro t u r depth ht (⟨rfl, -⟩ | ⟨d, rfl, hcut⟩)
      · rw [hcomment] at ht
        cases ht
      · refine .inr ⟨d, rfl, ?_⟩
        rw [← hcut, cutAtBrace?_of_comment? ht, placeOfBrace_map]
    · rintro c t depth hc hs hlive (⟨heq, rfl⟩ | ⟨d, rfl, hcut⟩)
      · obtain ⟨rfl, rfl⟩ := List.cons.inj heq
        refine .inr ⟨t, 1, List.suffix_refl t, ?_, .inr ⟨0, rfl, rfl⟩⟩
        rw [braceStep_place hc hs, if_pos rfl]
      · rw [braceStep_place hc hs]
        rw [cutAtBrace?_of_live hlive] at hcut
        by_cases hc₁ : c = '{'
        · refine .inr ⟨t, d + 2, List.suffix_refl t, by rw [if_pos hc₁], .inr ⟨d + 1, rfl, ?_⟩⟩
          rw [if_pos hc₁, placeOfBrace_map] at hcut
          exact hcut
        · rw [if_neg hc₁] at hcut ⊢
          by_cases hc₂ : c = '}'
          · cases d with
            | zero =>
              rw [if_pos ⟨hc₂, rfl⟩] at hcut
              rw [if_pos hc₂, ← hcut, hc₂]
              exact .inl rfl
            | succ d =>
              refine .inr ⟨t, d + 1, List.suffix_refl t, by rw [if_pos hc₂]; rfl, .inr ⟨d, rfl, ?_⟩⟩
              rw [if_neg (by simp), if_pos hc₂, placeOfBrace_map] at hcut
              exact hcut
          · refine .inr ⟨t, d + 1, List.suffix_refl t, by rw [if_neg hc₂], .inr ⟨d, rfl, ?_⟩⟩
            rw [if_neg (by simp [hc₂]), if_neg hc₂, placeOfBrace_map] at hcut
            exact hcut
  exact hfollows.scan_eq _ h (.inl ⟨rfl, rfl⟩)

/-- **The block `{ ... }` at an offset**: its body, with the offset behind it. -/
def readBlock (src : Bytes) (i : Nat) : Reading (Bytes × Nat) := do
  guard (src[i]? = some (ascii '{'))
  let close ← OptionT.mk (findMatchingBrace src i)
  let body ← liftM (slice src (i + 1) close)
  return (body, close + 1)

/-- What is left behind a block is an end of the text. -/
theorem suffix_of_block? {body : Text} (h : block? s = some (body, r)) : r <:+ s := by
  rw [block?_eq_append h]
  exact ⟨'{' :: body ++ ['}'], by simp⟩

/-- The body of a block is shorter than the text, so its conditionals can be expanded in turn. -/
theorem byteSize_lt_of_block? {body : Text} (h : block? s = some (body, r)) :
    byteSize body < byteSize s := by
  rw [block?_eq_append h]
  simp only [List.cons_append, byteSize_cons, byteSize_append]
  have := ('{').utf8Size_pos
  omega

/-- **The block at a place.** -/
theorem readBlock_place (h : s <:+ S) :
    (readBlock (utf8 S) (place S s)).run =
      .ok ((block? s).map fun p => (utf8 p.1, place S p.2)) := by
  have hopen : ('{' : Char).toNat < 128 := by decide
  have hclose : ('}' : Char).toNat < 128 := by decide
  rw [readBlock, Reading.run_guard_bind (getElem?_place_eq_iff hopen h)]
  by_cases hhead : s.head? = some '{'
  · obtain ⟨t, rfl⟩ := List.head?_eq_some_iff.1 hhead
    have ht : t <:+ S := (List.suffix_cons _ t).trans h
    rw [if_pos hhead, Option.map_eq_bind]
    refine Reading.run_bind (o := cutAtBrace? 0 t) (findMatchingBrace_place h) ?_
    rintro ⟨body, r⟩ hcut
    have htext : t = body ++ '}' :: r := by
      have := block?_eq_append (s := '{' :: t) hcut
      rw [List.cons_append] at this
      exact (List.cons.inj this).2
    have hr : '}' :: r <:+ S := (List.suffix_append body _).trans (htext ▸ ht)
    have hslice : slice (utf8 S) (place S ('{' :: t) + 1) (place S ('}' :: r)) = .ok (utf8 body) := by
      rw [place_cons hopen h, htext]
      exact slice_place (htext ▸ ht)
    rw [Reading.run_lift_bind hslice, place_cons hclose hr]
    rfl
  · have hnone : block? s = none := by
      unfold block?
      split
      · exact absurd rfl hhead
      · rfl
    rw [if_neg hhead, hnone]
    rfl

/-! ### The closing `}}` -/

/-- The turn of the search for the closing `\x7d\x7d` at an ASCII character. -/
theorem doubleStep_place {c : Char} (hc : c.toNat < 128) (h : c :: r <:+ S) (depth : Nat) :
    doubleStep (utf8 S) (place S (c :: r)) (ascii c) depth =
      if c = '{' then .ok (.next (place S r) (depth + 1))
      else if c = '}' ∧ 0 < depth then .ok (.next (place S r) (depth - 1))
      else if c = '}' ∧ r.head? = some '}' then .ok (.done (some (place S (c :: r))))
      else .ok (.next (place S r) depth) := by
  have hclose : ('}' : Char).toNat < 128 := by decide
  simp only [doubleStep, ascii_inj (a := '{') (by decide) hc, ascii_inj hclose hc, place_cons hc h,
    getElem?_place_eq_iff hclose ((List.suffix_cons c r).trans h)]

/-- The place of the `}}` at which a cut is made. -/
def placeOfDouble (S : Text) (cut : Option (Text × Text)) : Option Nat :=
  cut.map fun p => place S ('}' :: '}' :: p.2)

/-- The place of the `\x7d\x7d` is known from what stands behind it. -/
@[simp] theorem placeOfDouble_map (S : Text) (cut : Option (Text × Text)) (f : Text → Text) :
    placeOfDouble S (cut.map fun p => (f p.1, p.2)) = placeOfDouble S cut := by
  simp [placeOfDouble, Function.comp_def]

/-- **The closing `}}` is the one at which a cut is made.** -/
theorem findDoubleClose_place (h : s <:+ S) :
    findDoubleClose (utf8 S) (place S s) = .ok (placeOfDouble S (cutAtDouble? 0 s)) := by
  have hopen : ('{' : Char).toNat < 128 := by decide
  have hclose : ('}' : Char).toNat < 128 := by decide
  -- what is still to be read decides with the depth where the closing braces stand
  have hfollows : FollowsLive S (doubleStep (utf8 S)) (fun _ => .ok none)
      (fun r depth => placeOfDouble S (cutAtDouble? depth r) = placeOfDouble S (cutAtDouble? 0 s))
      (placeOfDouble S (cutAtDouble? 0 s)) := by
    refine ⟨?_, ?_, ?_, ?_, ?_⟩
    · intro depth hcut
      rw [← hcut, cutAtDouble?]
      rfl
    · intro i b depth _ hb
      rw [doubleStep, if_neg (ne_ascii_of_high hb hopen), if_neg (fun h => ne_ascii_of_high hb hclose h.1),
        if_neg (fun h => ne_ascii_of_high hb hclose h.1)]
    · intro c t depth hc hlive hcut
      have hc₁ : c ≠ '{' := by rintro rfl; exact absurd hc (by decide)
      have hc₂ : c ≠ '}' := by rintro rfl; exact absurd hc (by decide)
      rw [← hcut, cutAtDouble?_of_live hlive]
      simp [hc₁, hc₂]
    · intro t u r depth ht hcut
      rw [← hcut, cutAtDouble?_of_comment? ht, placeOfDouble_map]
    · intro c t depth hc hs hlive hcut
      rw [doubleStep_place hc hs]
      rw [cutAtDouble?_of_live hlive] at hcut
      by_cases hc₁ : c = '{'
      · rw [if_pos hc₁, placeOfDouble_map] at hcut
        exact .inr ⟨t, depth + 1, List.suffix_refl t, by rw [if_pos hc₁], hcut⟩
      · rw [if_neg hc₁] at hcut ⊢
        by_cases hdepth : c = '}' ∧ 0 < depth
        · rw [if_neg (fun h => by omega), if_pos hdepth.1, placeOfDouble_map] at hcut
          exact .inr ⟨t, depth - 1, List.suffix_refl t, by rw [if_pos hdepth], hcut⟩
        · -- a closing brace at depth zero that is not followed by another one is passed over
          have hzero : c = '}' → depth = 0 := fun hc₂ => by
            by_contra hne
            exact hdepth ⟨hc₂, Nat.pos_of_ne_zero hne⟩
          rw [if_neg hdepth]
          by_cases hend : c = '}' ∧ t.head? = some '}'
          · obtain ⟨u, rfl⟩ := List.head?_eq_some_iff.1 hend.2
            rw [if_pos ⟨hend.1, hzero hend.1, rfl⟩] at hcut
            rw [if_pos hend, ← hcut, hend.1]
            exact .inl rfl
          · have hkept : (if c = '}' then depth - 1 else depth) = depth := by
              split
              · rw [hzero ‹_›]
              · rfl
            rw [if_neg fun h => hend ⟨h.1, h.2.2⟩, hkept, placeOfDouble_map] at hcut
            exact .inr ⟨t, depth, List.suffix_refl t, by rw [if_neg hend], hcut⟩
  exact hfollows.scan_eq _ h rfl

end Bytewise

end ShaderWeave
