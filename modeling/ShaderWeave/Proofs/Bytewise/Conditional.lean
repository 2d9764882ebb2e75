import ShaderWeave.Proofs.Bytewise.Brace
import ShaderWeave.Proofs.Conditional.Parts

set_option autoImplicit false

/-!
# Conditionals in bytes

The expansion of conditionals, for a program that holds the bytes of a text. The body that is chosen is
cut out of the text and expanded as a text of its own.

## Main definitions

* `ShaderWeave.Bytewise.readConditional` — the conditional at an offset.
* `ShaderWeave.Bytewise.expandConditionals` — the expansion of a text.

## Main results

* `ShaderWeave.Bytewise.expandConditionals_utf8` — nothing goes wrong in the expansion of a text, and it
  comes to the bytes of the expansion.
-/

namespace ShaderWeave

namespace Bytewise

open Text Bytes Scan

variable {S s r : Text}

/-- **A conditional in bytes**, with the offset behind it. Without an alternative its second body is
empty. -/
structure ReadConditional where
  flag : Bytes
  thenBody : Bytes
  elseBody : Bytes
  stop : Nat

/-- **The alternative at an offset**: the body of its block, with the offset behind it. -/
def readElse (src : Bytes) (i : Nat) : Reading (Bytes × Nat) := do
  let i ← readPrefix "else".toList src (skipBlanks src i)
  guard ¬src[i]?.any (ofClass isWordChar)
  readBlock src (skipBlanks src i)

/-- **The conditional at an offset.** -/
def readConditional (src : Bytes) (i : Nat) : Reading ReadConditional := do
  let i ← readPrefix "#if".toList src i
  guard (src[i]?.any (ofClass isBlank))
  let (flag, i) ← readWord src (skipBlanks src i)
  let (thenBody, i) ← readBlock src (skipBlanks src i)
  match ← liftM (readElse src i).run with
  | some (elseBody, i) => return ⟨flag, thenBody, elseBody, i⟩
  | none => return ⟨flag, thenBody, [], i⟩

/-- **A replacement for a conditional at an offset**: what comes of the body that the flags choose, with
the offset behind the conditional. A body is shorter than the text that it is cut out of. -/
def findConditional (flags : Flags) (src : Bytes)
    (expand : (body : Bytes) → body.length < src.length → Guarded Bytes) (i : Nat) (b : UInt8) (_ : Unit) :
    Guarded (Unit × Option (Bytes × Nat)) :=
  if b = ascii '#' then do
    match ← (readConditional src i).run with
    | none => return ((), none)
    | some block =>
      let flag ← text block.flag
      let body := if flags.isEnabled (.ofList flag) then block.thenBody else block.elseBody
      if h : body.length < src.length then
        let expansion ← expand body h
        return ((), some (expansion, block.stop))
      else throw .stuck
  else return ((), none)

/-- **The bytes of a text with its conditionals expanded.** -/
def expandConditionals (flags : Flags) (src : Bytes) : Guarded Bytes := do
  let (out, _) ← rewrite src (findConditional flags src fun body _ => expandConditionals flags body) ()
  return out
termination_by src.length

/-! ### Reading -/

/-- The alternative of a text, step by step. -/
theorem join_readElse (s : Text) :
    (Conditional.readElse s).join =
      (after? "else".toList (Text.skipBlanks s)).bind fun r =>
        if r.head?.any isWordChar then none else block? (Text.skipBlanks r) := by
  unfold Conditional.readElse
  cases after? "else".toList (Text.skipBlanks s) with
  | none => rfl
  | some r =>
    simp only [Option.bind_some]
    split
    · rfl
    · split
      · rename_i t ht
        rw [ht]
        rfl
      · rename_i hbrace
        unfold block?
        split
        · rename_i heq
          exact absurd heq (hbrace _)
        · rfl

/-- **The alternative at a place.** -/
theorem readElse_place (h : s <:+ S) :
    (readElse (utf8 S) (place S s)).run =
      .ok ((Conditional.readElse s).join.map fun p => (utf8 p.1, place S p.2)) := by
  have hblanks : Text.skipBlanks s <:+ S := (skipBlanks_suffix s).trans h
  rw [readElse, skipBlanks_place h, join_readElse]
  refine Reading.run_bind_map (readPrefix_place (by decide) hblanks) ?_
  intro r hafter
  have hr : r <:+ S := (after?_suffix hafter).trans hblanks
  have hword : ¬(utf8 S)[place S r]?.any (ofClass isWordChar) ↔ ¬r.head?.any isWordChar := by
    rw [getElem?_place_any agrees_isWordChar hr]
  rw [Reading.run_guard_bind hword, ite_not]
  split
  · rfl
  · rw [skipBlanks_place hr, readBlock_place ((skipBlanks_suffix r).trans hr)]

/-- A conditional in the bytes of a text that what is read ends. -/
def encodedConditional (S : Text) (p : Conditional × Text) : ReadConditional :=
  ⟨utf8 p.1.flag.toList, utf8 p.1.thenBody, utf8 p.1.elseBody, place S p.2⟩

/-- What is read of a conditional behind its first body, with the rest. -/
def withElse (flag body : Text) : Option (Option (Text × Text)) → Text → Conditional × Text
  | none, r => (⟨.ofList flag, body, [], false⟩, r)
  | some none, r => (⟨.ofList flag, body, [], true⟩, r)
  | some (some (alt, r)), _ => (⟨.ofList flag, body, alt, false⟩, r)

/-- The conditional of a text, step by step. -/
theorem toOption_read (s : Text) :
    (Conditional.read s).bind Except.toOption =
      (after? "#if".toList s).bind fun r =>
        if r.head?.any isBlank then
          (word? (Text.skipBlanks r)).bind fun p =>
            (block? (Text.skipBlanks p.2)).bind fun q =>
              some (withElse p.1 q.1 (Conditional.readElse q.2) q.2)
        else none := by
  unfold Conditional.read
  cases after? "#if".toList s with
  | none => rfl
  | some r =>
    simp only [Option.bind_some]
    split
    · cases word? (Text.skipBlanks r) with
      | none => rfl
      | some p =>
        obtain ⟨flag, r⟩ := p
        simp only [Option.bind_some]
        split
        · rename_i t ht
          rw [ht]
          cases block? ('{' :: t) with
          | none => rfl
          | some q =>
            obtain ⟨body, r⟩ := q
            simp only [Option.bind_some]
            cases Conditional.readElse r with
            | none => rfl
            | some alt => cases alt <;> rfl
        · rename_i hbrace
          have hnone : block? (Text.skipBlanks r) = none := by
            unfold block?
            split
            · rename_i heq
              exact absurd heq (hbrace _)
            · rfl
          rw [hnone]
          rfl
    · rfl

/-- **The conditional at a place.** -/
theorem readConditional_place (h : s <:+ S) :
    (readConditional (utf8 S) (place S s)).run =
      .ok (((Conditional.read s).bind Except.toOption).map (encodedConditional S)) := by
  rw [readConditional, toOption_read]
  refine Reading.run_bind_map (readPrefix_place (by decide) h) ?_
  intro r hafter
  have hr : r <:+ S := (after?_suffix hafter).trans h
  have hword := (skipBlanks_suffix r).trans hr
  have hblank : (utf8 S)[place S r]?.any (ofClass isBlank) ↔ r.head?.any isBlank := by
    rw [getElem?_place_any agrees_isBlank hr]
  rw [Reading.run_guard_bind hblank]
  split
  · rw [skipBlanks_place hr]
    refine Reading.run_bind_map (readWord_place hword) ?_
    rintro ⟨flag, r₁⟩ hflag
    have hr₁ : r₁ <:+ S := (word?_suffix hflag).trans hword
    have hblock := (skipBlanks_suffix r₁).trans hr₁
    simp only [skipBlanks_place hr₁]
    refine Reading.run_bind_map (readBlock_place hblock) ?_
    rintro ⟨body, r₂⟩ hbody
    have hr₂ : r₂ <:+ S := (suffix_of_block? hbody).trans hblock
    rw [Reading.run_lift_bind (readElse_place hr₂)]
    cases Conditional.readElse r₂ with
    | none => simp [withElse, encodedConditional]; rfl
    | some alt => cases alt <;> simp [withElse, encodedConditional] <;> rfl
  · rfl

/-! ### Expanding -/

/-- An alternative is shorter than the text, and what follows is an end of it. -/
theorem of_join_readElse {alt : Text} (h : (Conditional.readElse s).join = some (alt, r)) :
    byteSize alt < byteSize s ∧ r <:+ s := by
  rw [join_readElse] at h
  obtain ⟨r₀, hafter, h⟩ := Option.bind_eq_some_iff.1 h
  split at h
  · cases h
  · have hsuffix : Text.skipBlanks r₀ <:+ s :=
      ((skipBlanks_suffix r₀).trans (after?_suffix hafter)).trans (skipBlanks_suffix s)
    exact ⟨(byteSize_lt_of_block? h).trans_le (byteSize_le_of_suffix hsuffix),
      (suffix_of_block? h).trans hsuffix⟩

/-- A conditional starts with `#`. -/
theorem toOption_read_of_ne {c : Char} (h : c ≠ '#') (s : Text) :
    (Conditional.read (c :: s)).bind Except.toOption = none := by
  rw [Conditional.read_eq_none (by simp [after?, Ne.symm h])]
  rfl

/-- What follows a conditional is an end of what follows its first character. -/
theorem suffix_of_toOption_read {c : Char} {b : Conditional}
    (h : (Conditional.read (c :: s)).bind Except.toOption = some (b, r)) (hr : r <:+ c :: s) :
    r <:+ s := by
  obtain ⟨e, he, hok⟩ := Option.bind_eq_some_iff.1 h
  cases e with
  | error d => cases hok
  | ok p =>
    obtain rfl := Option.some.inj hok
    have hlength := Conditional.length_lt_of_read he
    rcases List.suffix_cons_iff.1 hr with rfl | hr
    · omega
    · exact hr

/-- Both bodies of a conditional are shorter than the text, and what follows is an end of it. -/
theorem of_toOption_read {b : Conditional}
    (h : (Conditional.read s).bind Except.toOption = some (b, r)) :
    byteSize b.thenBody < byteSize s ∧ byteSize b.elseBody < byteSize s ∧ r <:+ s := by
  rw [toOption_read] at h
  obtain ⟨r₀, hafter, h⟩ := Option.bind_eq_some_iff.1 h
  split at h
  · obtain ⟨⟨flag, r₁⟩, hword, h⟩ := Option.bind_eq_some_iff.1 h
    obtain ⟨⟨body, r₂⟩, hblock, h⟩ := Option.bind_eq_some_iff.1 h
    have hsuffix : Text.skipBlanks r₁ <:+ s :=
      (((skipBlanks_suffix r₁).trans (word?_suffix hword)).trans (skipBlanks_suffix r₀)).trans
        (after?_suffix hafter)
    have hbody : byteSize body < byteSize s :=
      (byteSize_lt_of_block? hblock).trans_le (byteSize_le_of_suffix hsuffix)
    have hr₂ : r₂ <:+ s := (suffix_of_block? hblock).trans hsuffix
    have hempty : byteSize [] < byteSize s := Nat.lt_of_le_of_lt (Nat.zero_le _) hbody
    simp only at h
    cases helse : Conditional.readElse r₂ with
    | none =>
      rw [helse] at h
      cases h
      exact ⟨hbody, hempty, hr₂⟩
    | some alt =>
      rw [helse] at h
      cases alt with
      | none =>
        cases h
        exact ⟨hbody, hempty, hr₂⟩
      | some p =>
        obtain ⟨halt, hr⟩ := of_join_readElse (s := r₂) (by rw [helse]; rfl)
        cases h
        exact ⟨hbody, halt.trans_le (byteSize_le_of_suffix hr₂), hr.trans hr₂⟩
  · cases h

/-- **What comes of the bytes of a text in which conditionals are expanded.** Nothing goes wrong.

**Proof sketch.** Induction on the size of the text: the bodies are shorter. The rewriting goes along the
characters outside comments, and finds something where a conditional is read. -/
theorem expandConditionals_utf8 (flags : Flags) (s : Text) :
    expandConditionals flags (utf8 s) = .ok (utf8 (ShaderWeave.expandConditionals flags s)) := by
  generalize hn : byteSize s = n
  induction n using Nat.strongRecOn generalizing s with
  | ind n ih =>
    have hrewrites : Rewrites s
        (findConditional flags (utf8 s) fun body _ => expandConditionals flags body)
        (ShaderWeave.expandConditionals flags) (fun state _ => state) := by
      refine ⟨⟨expandConditionals_nil flags, fun _ => rfl⟩, ?_, ?_, ?_, ?_⟩
      · intro i b _ _ hb
        rw [findConditional, if_neg (ne_ascii_of_high hb (by decide))]
        rfl
      · intro c t hc hcomment
        have hhash : c ≠ '#' := by rintro rfl; exact absurd hc (by decide)
        exact ⟨expandConditionals_of_unread hcomment (toOption_read_of_ne hhash t), fun _ => rfl⟩
      · intro t u r hcomment
        exact ⟨expandConditionals_of_comment? hcomment, fun _ => rfl⟩
      · intro c t _ hc hs hcomment
        by_cases hhash : c = '#'
        · subst hhash
          have hread := readConditional_place hs
          cases hoption : (Conditional.read ('#' :: t)).bind Except.toOption with
          | none =>
            rw [hoption] at hread
            refine .inl ⟨(), ?_, expandConditionals_of_unread hcomment hoption, rfl⟩
            rw [findConditional, if_pos rfl, hread]
            rfl
          | some p =>
            obtain ⟨b, r⟩ := p
            rw [hoption] at hread
            obtain ⟨hthen, helse, hr⟩ := of_toOption_read hoption
            -- the bodies are shorter than the text, so they are expanded without a fault by induction
            have hsize := byteSize_le_of_suffix hs
            refine .inr ⟨_, r, (), suffix_of_toOption_read hoption hr, ?_,
              expandConditionals_of_read hcomment hoption, rfl⟩
            rw [findConditional, if_pos rfl, hread]
            simp only [Option.map_some, encodedConditional, bind, Except.bind, text_utf8,
              String.ofList_toList]
            split
            · rw [length_utf8, length_utf8, dif_pos (hthen.trans_le hsize),
                ih _ (hn ▸ hthen.trans_le hsize) b.thenBody rfl]
              rfl
            · rw [length_utf8, length_utf8, dif_pos (helse.trans_le hsize),
                ih _ (hn ▸ helse.trans_le hsize) b.elseBody rfl]
              rfl
        · have hascii := ascii_inj (a := '#') (by decide) hc
          refine .inl ⟨(), ?_, expandConditionals_of_unread hcomment (toOption_read_of_ne hhash t), rfl⟩
          rw [findConditional, if_neg (mt hascii.1 hhash)]
          rfl
    rw [expandConditionals, hrewrites.rewrite_eq]
    rfl

end Bytewise

end ShaderWeave
