import ShaderWeave.Proofs.Bytewise.Token

set_option autoImplicit false

/-!
# Scans outside comments

Most scans step over comments and look at the bytes outside them. Some of these copy what they pass and
put other bytes where they find something: they remember how far they have copied, and copy the bytes up
to there when something is found, and at the end.

## Main definitions

* `ShaderWeave.Bytewise.scan` — a loop along the bytes outside comments.
* `ShaderWeave.Bytewise.rewrite` — such a loop that copies, and replaces what it finds.
* `ShaderWeave.Bytewise.FollowsLive`, `ShaderWeave.Bytewise.Rewrites` — how these go along the characters
  of a text.

## Main results

* `ShaderWeave.Bytewise.FollowsLive.scan_eq`, `ShaderWeave.Bytewise.Rewrites.rewrite_eq` — what they come
  to.
-/

namespace ShaderWeave

namespace Bytewise

open Text Bytes Scan

variable {σ β : Type}

/-- **A loop along the bytes outside comments.** -/
def scan (src : Bytes) (step : Nat → UInt8 → σ → Guarded (Step σ β)) (finish : σ → Guarded β) (i : Nat)
    (state : σ) : Guarded β :=
  walk src (fun i b state => do
    match ← skipComment src i with
    | some next => return .next next state
    | none => step i b state) finish i state

/-- **A loop that goes along the characters outside comments**, as `Follows` has it for all characters. -/
structure FollowsLive (S : Text) (step : Nat → UInt8 → σ → Guarded (Step σ β)) (finish : σ → Guarded β)
    (Inv : Text → σ → Prop) (result : β) : Prop where
  stop : ∀ {state}, Inv [] state → finish state = .ok result
  quiet : ∀ {i b state}, (utf8 S)[i]? = some b → 128 ≤ b.toNat →
    step i b state = .ok (.next (i + 1) state)
  other : ∀ {c : Char} {s state}, 128 ≤ c.toNat → comment? (c :: s) = none → Inv (c :: s) state →
    Inv s state
  comment : ∀ {s t r state}, comment? s = some (t, r) → Inv s state → Inv r state
  char : ∀ {c : Char} {s state}, c.toNat < 128 → c :: s <:+ S → comment? (c :: s) = none →
    Inv (c :: s) state →
    step (place S (c :: s)) (ascii c) state = .ok (.done result) ∨
    ∃ r state', r <:+ s ∧ step (place S (c :: s)) (ascii c) state = .ok (.next (place S r) state') ∧
      Inv r state'

/-- What is behind a comment is an end of what is behind its first character. -/
theorem suffix_of_comment? {c : Char} {s t r : Text} (h : comment? (c :: s) = some (t, r)) : r <:+ s := by
  obtain ⟨happend, hlength⟩ := comment?_eq_append h
  cases t with
  | nil => simp at hlength
  | cons d t => exact ⟨t, (List.cons.inj happend).2.symm⟩

/-- **What a loop along the characters outside comments comes to.** -/
theorem FollowsLive.scan_eq {S : Text} {step : Nat → UInt8 → σ → Guarded (Step σ β)}
    {finish : σ → Guarded β} {Inv : Text → σ → Prop} {result : β}
    (h : FollowsLive S step finish Inv result) {s : Text} (state : σ) (hs : s <:+ S)
    (hinv : Inv s state) : scan (utf8 S) step finish (place S s) state = .ok result := by
  refine Follows.walk_eq (show Follows S _ finish Inv result from ⟨h.stop, ?_, ?_, ?_⟩) hs hinv
  · intro i b state hb hhigh
    have hslash : b ≠ ascii '/' := by
      rintro rfl
      exact absurd hhigh (by decide)
    rw [skipComment_of_ne hb hslash]
    exact h.quiet hb hhigh
  · intro c s state hc hinv
    refine h.other hc (comment?_cons_eq_none ?_ s) hinv
    rintro rfl
    exact absurd hc (by decide)
  · intro c s state hc hs hinv
    rw [skipComment_place hs]
    cases hcomment : comment? (c :: s) with
    | none => exact h.char hc hs hcomment hinv
    | some p =>
      obtain ⟨t, r⟩ := p
      exact .inr ⟨r, state, suffix_of_comment? hcomment, rfl, h.comment hcomment hinv⟩

/-! ### Rewriting -/

/-- **What a rewriting has come to**: what it has put out, how far it has copied, and its state. -/
structure Copied (σ : Type) where
  out : Bytes
  last : Nat
  state : σ

/-- One turn of a rewriting. At each byte outside comments `find` has another state, and perhaps a
replacement with the offset behind what it is for. -/
def Copied.step (src : Bytes) (find : Nat → UInt8 → σ → Guarded (σ × Option (Bytes × Nat))) (i : Nat)
    (b : UInt8) (copied : Copied σ) : Guarded (Step (Copied σ) (Bytes × σ)) := do
  match ← find i b copied.state with
  | (state, none) => return .next (i + 1) { copied with state }
  | (state, some (replacement, stop)) =>
    let kept ← slice src copied.last i
    return .next stop ⟨copied.out ++ kept ++ replacement, stop, state⟩

/-- The end of a rewriting. -/
def Copied.finish (src : Bytes) (copied : Copied σ) : Guarded (Bytes × σ) := do
  let kept ← sliceFrom src copied.last
  return (copied.out ++ kept, copied.state)

/-- **A loop that copies the bytes, and replaces what it finds.** -/
def rewrite (src : Bytes) (find : Nat → UInt8 → σ → Guarded (σ × Option (Bytes × Nat))) (state : σ) :
    Guarded (Bytes × σ) :=
  scan src (Copied.step src find) (Copied.finish src) 0 ⟨[], 0, state⟩

/-- **A rewriting that goes along the characters of a text**: what comes of an end of the text, and of the
state, if one goes on from there. -/
structure Rewrites (S : Text) (find : Nat → UInt8 → σ → Guarded (σ × Option (Bytes × Nat)))
    (out : Text → Text) (final : σ → Text → σ) : Prop where
  stop : out [] = [] ∧ ∀ state, final state [] = state
  quiet : ∀ {i b state}, (utf8 S)[i]? = some b → 128 ≤ b.toNat → find i b state = .ok (state, none)
  other : ∀ {c : Char} {s}, 128 ≤ c.toNat → comment? (c :: s) = none →
    out (c :: s) = c :: out s ∧ ∀ state, final state (c :: s) = final state s
  comment : ∀ {s t r}, comment? s = some (t, r) →
    out s = t ++ out r ∧ ∀ state, final state s = final state r
  char : ∀ {c : Char} {s state}, c.toNat < 128 → c :: s <:+ S → comment? (c :: s) = none →
    (∃ state', find (place S (c :: s)) (ascii c) state = .ok (state', none) ∧
      out (c :: s) = c :: out s ∧ final state (c :: s) = final state' s) ∨
    ∃ w r state', r <:+ s ∧
      find (place S (c :: s)) (ascii c) state = .ok (state', some (utf8 w, place S r)) ∧
      out (c :: s) = w ++ out r ∧ final state (c :: s) = final state' r

/-- **What a rewriting along the characters of a text comes to.**

**Proof sketch.** What has been put out, with the part that is not copied yet and what comes of the rest,
is what comes of the whole text. -/
theorem Rewrites.rewrite_eq {S : Text} {find : Nat → UInt8 → σ → Guarded (σ × Option (Bytes × Nat))}
    {out : Text → Text} {final : σ → Text → σ} (h : Rewrites S find out final) (state : σ) :
    rewrite (utf8 S) find state = .ok (utf8 (out S), final state S) := by
  -- what was stepped over since the last copy is `m`, and it is copied with the next item
  have hfollows : FollowsLive S (Copied.step (utf8 S) find) (Copied.finish (utf8 S))
      (fun s copied => ∃ m, m ++ s <:+ S ∧ copied.last = place S (m ++ s) ∧
        copied.out ++ utf8 (m ++ out s) = utf8 (out S) ∧ final copied.state s = final state S)
      (utf8 (out S), final state S) := by
    refine ⟨?_, ?_, ?_, ?_, ?_⟩
    · rintro ⟨out', last, state'⟩ ⟨m, hm, rfl, hout, hfinal⟩
      rw [List.append_nil] at hm
      simp only [h.stop.1, h.stop.2, List.append_nil] at hout hfinal
      simp only [Copied.finish, List.append_nil, sliceFrom_place hm, bind, Except.bind, pure,
        Except.pure, hout, hfinal]
    · intro i b copied hb hhigh
      rw [Copied.step, h.quiet hb hhigh]
      rfl
    · rintro c s ⟨out', last, state'⟩ hc hcomment ⟨m, hm, rfl, hout, hfinal⟩
      obtain ⟨hout', hfinal'⟩ := h.other hc hcomment
      refine ⟨m ++ [c], by simpa using hm, by simp, ?_, (hfinal' _).symm.trans hfinal⟩
      rw [← hout, hout']
      simp
    · rintro s t r ⟨out', last, state'⟩ hcomment ⟨m, hm, rfl, hout, hfinal⟩
      obtain ⟨hout', hfinal'⟩ := h.comment hcomment
      obtain ⟨rfl, -⟩ := comment?_eq_append hcomment
      refine ⟨m ++ t, by simpa using hm, by simp, ?_, (hfinal' _).symm.trans hfinal⟩
      rw [← hout, hout']
      simp
    · rintro c s ⟨out', last, state'⟩ hc hs hcomment ⟨m, hm, rfl, hout, hfinal⟩
      rcases @h.char c s state' hc hs hcomment with
        ⟨state'', hfind, hout', hfinal'⟩ | ⟨w, r, state'', hr, hfind, hout', hfinal'⟩
      · refine .inr ⟨s, ⟨out', place S (m ++ c :: s), state''⟩, List.suffix_refl s, ?_, m ++ [c], ?_⟩
        · rw [Copied.step, hfind, ← place_cons hc hs]
          rfl
        · refine ⟨by simpa using hm, by simp, ?_, hfinal'.symm.trans hfinal⟩
          rw [← hout, hout']
          simp
      · refine .inr ⟨r, ⟨out' ++ utf8 m ++ utf8 w, place S r, state''⟩, hr, ?_, [], ?_⟩
        · rw [Copied.step, hfind]
          simp only [bind, Except.bind, pure, Except.pure, slice_place hm]
        · refine ⟨(hr.trans (List.suffix_cons c s)).trans hs, rfl, ?_, hfinal'.symm.trans hfinal⟩
          rw [← hout, hout']
          simp
  have hscan := hfollows.scan_eq ⟨[], 0, state⟩ (List.suffix_refl S)
    ⟨[], List.suffix_refl S, (place_self S).symm, rfl, rfl⟩
  rwa [place_self] at hscan

end Bytewise

end ShaderWeave
