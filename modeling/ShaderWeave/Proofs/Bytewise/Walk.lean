import ShaderWeave.Proofs.Bytewise.Slice

set_option autoImplicit false

/-!
# Walks along bytes

Scans of encoded texts are loops: look at the byte at an offset, go on with a later offset and perhaps
another state, or stop. Most bytes are passed one at a time, also those inside of characters. A loop that
only heeds ASCII bytes goes from place to place nevertheless, for it takes no notice of the bytes of other
characters. So what it comes to can be read off the characters.

## Main definitions

* `ShaderWeave.Bytewise.walk` — a loop along bytes.
* `ShaderWeave.Bytewise.Follows` — a loop that goes along the characters of a text.

## Main results

* `ShaderWeave.Bytewise.Follows.walk_eq` — what such a loop comes to.
-/

namespace ShaderWeave

namespace Bytewise

open Text Bytes

variable {σ β : Type}

/-- **What one turn of a loop leads to**: a result, or another offset and state. -/
inductive Step (σ β : Type) where
  | done (result : β)
  | next (i : Nat) (state : σ)

/-- **A loop along bytes**, from an offset and a state on. At the end of the bytes it finishes. -/
def walk (src : Bytes) (step : Nat → UInt8 → σ → Guarded (Step σ β)) (finish : σ → Guarded β) (i : Nat)
    (state : σ) : Guarded β :=
  match _ : src[i]? with
  | none => finish state
  | some b =>
    match step i b state with
    | .error e => .error e
    | .ok (.done result) => .ok result
    | .ok (.next j state) => if i < j then walk src step finish j state else .error .stuck
termination_by src.length - i
decreasing_by
  have := (List.getElem?_eq_some_iff.1 ‹_›).1
  omega

section

variable {src : Bytes} {step : Nat → UInt8 → σ → Guarded (Step σ β)} {finish : σ → Guarded β} {i : Nat}
  {state : σ}

/-- A loop finishes at the end of the bytes. -/
theorem walk_of_none (h : src[i]? = none) : walk src step finish i state = finish state := by
  rw [walk]
  split
  · rfl
  · rename_i h'
    rw [h] at h'
    cases h'

/-- A loop that is done in a turn gives its result. -/
theorem walk_of_done {b : UInt8} {result : β} (h : src[i]? = some b)
    (hstep : step i b state = .ok (.done result)) : walk src step finish i state = .ok result := by
  rw [walk]
  split
  · rename_i h'
    rw [h] at h'
    cases h'
  · rename_i b' h'
    obtain rfl : b = b' := Option.some.inj (h.symm.trans h')
    rw [hstep]

/-- A loop that goes on in a turn does so from the offset and the state it came to. -/
theorem walk_of_next {b : UInt8} {j : Nat} {state' : σ} (h : src[i]? = some b)
    (hstep : step i b state = .ok (.next j state')) (hj : i < j) :
    walk src step finish i state = walk src step finish j state' := by
  rw [walk]
  split
  · rename_i h'
    rw [h] at h'
    cases h'
  · rename_i b' h'
    obtain rfl : b = b' := Option.some.inj (h.symm.trans h')
    rw [hstep]
    exact if_pos hj

/-- A loop that takes no notice of bytes that are not ASCII passes them. -/
theorem walk_of_quiet
    (hquiet : ∀ {j : Nat} {b : UInt8}, src[j]? = some b → 128 ≤ b.toNat →
      step j b state = .ok (.next (j + 1) state))
    {bs rest : Bytes} (hbs : ∀ b ∈ bs, 128 ≤ b.toNat) (hdrop : src.drop i = bs ++ rest) :
    walk src step finish i state = walk src step finish (i + bs.length) state := by
  induction bs generalizing i with
  | nil => rfl
  | cons b bs ih =>
    rw [List.forall_mem_cons] at hbs
    have hb : src[i]? = some b := by
      rw [← List.head?_drop, hdrop]
      rfl
    have hdrop' : src.drop (i + 1) = bs ++ rest := by
      rw [← List.tail_drop, hdrop]
      rfl
    rw [walk_of_next hb (hquiet hb hbs.1) (Nat.lt_succ_self i), ih hbs.2 hdrop', List.length_cons]
    congr 1
    omega

end

/-- **A loop that goes along the characters of a text.** There is a condition on the end of the text that
is still to come and on the state. It is kept from place to place, and at the end, or where the loop
stops, it fixes the result. Bytes that are not ASCII are passed. -/
structure Follows (S : Text) (step : Nat → UInt8 → σ → Guarded (Step σ β)) (finish : σ → Guarded β)
    (Inv : Text → σ → Prop) (result : β) : Prop where
  stop : ∀ {state}, Inv [] state → finish state = .ok result
  quiet : ∀ {i b state}, (utf8 S)[i]? = some b → 128 ≤ b.toNat →
    step i b state = .ok (.next (i + 1) state)
  other : ∀ {c : Char} {s state}, 128 ≤ c.toNat → Inv (c :: s) state → Inv s state
  char : ∀ {c : Char} {s state}, c.toNat < 128 → c :: s <:+ S → Inv (c :: s) state →
    step (place S (c :: s)) (ascii c) state = .ok (.done result) ∨
    ∃ r state', r <:+ s ∧ step (place S (c :: s)) (ascii c) state = .ok (.next (place S r) state') ∧
      Inv r state'

/-- **What a loop along the characters of a text comes to.**

**Proof sketch.** Induction on the length of what is still to come. An ASCII character is one byte, where
the loop takes a step; the bytes of any other character are passed one after the other. -/
theorem Follows.walk_eq {S : Text} {step : Nat → UInt8 → σ → Guarded (Step σ β)}
    {finish : σ → Guarded β} {Inv : Text → σ → Prop} {result : β}
    (h : Follows S step finish Inv result) {s : Text} {state : σ} (hs : s <:+ S) (hinv : Inv s state) :
    walk (utf8 S) step finish (place S s) state = .ok result := by
  generalize hn : s.length = n
  induction n using Nat.strongRecOn generalizing s state with
  | ind n ih =>
    cases s with
    | nil =>
      have hnone : (utf8 S)[place S []]? = none := by
        rw [place_nil]
        exact List.getElem?_eq_none (Nat.le_refl _)
      rw [walk_of_none hnone, h.stop hinv]
    | cons c s =>
      have hrest : s <:+ S := (List.suffix_cons c s).trans hs
      rw [List.length_cons] at hn
      rcases Nat.lt_or_ge c.toNat 128 with hc | hc
      · have hbyte := (getElem?_place_eq_iff hc hs).2 rfl
        rcases h.char hc hs hinv with hdone | ⟨r, state', hr, hnext, hinv'⟩
        · exact walk_of_done hbyte hdone
        · have hlength := hr.length_le
          have hne : r ≠ c :: s := by
            rintro rfl
            rw [List.length_cons] at hlength
            omega
          have hlt := place_lt hs (hr.trans (List.suffix_cons c s)) hne
          rw [walk_of_next hbyte hnext hlt]
          exact ih r.length (by omega) (hr.trans hrest) hinv' rfl
      · have hplace : place S (c :: s) + (String.utf8EncodeChar c).length = place S s := by
          rw [← place_append (t := [c]) hs, ← length_utf8, utf8_cons, utf8_nil, List.append_nil,
            List.singleton_append]
        rw [walk_of_quiet h.quiet (utf8EncodeChar_high hc) ((drop_place hs).trans (utf8_cons c s)),
          hplace]
        exact ih s.length (by omega) hrest (h.other hc hinv) rfl

end Bytewise

end ShaderWeave
