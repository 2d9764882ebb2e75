import Mathlib.Order.Bounds.Basic
import ShaderWeave.Proofs.Bytewise.Brace
import ShaderWeave.Proofs.Scan.OpenComment

set_option autoImplicit false

/-!
# Where blocks are closed, by offsets

The searches for a closing brace are loops that step over comments and count. What they are to find can be
said without a loop, by the offsets outside comments and the bytes outside comments that stand in front of
each. A search finds the first offset of which its condition holds, and nothing exactly if there is none.
This is so from any offset on, be it inside a character.

## Main definitions

* `ShaderWeave.Bytewise.Meets` — an offset outside comments, and the bytes outside comments in front of it.
* `ShaderWeave.Bytewise.MatchesAt` — an offset at which as many braces are closed as were opened.
* `ShaderWeave.Bytewise.ClosesAt` — an offset of a `}}` at depth zero.
* `ShaderWeave.Bytewise.FindsFirst` — a search that finds the first offset of a set.

## Main results

* `ShaderWeave.Bytewise.Searches.exists_found` — what a loop comes to that goes on until a condition holds.
* `ShaderWeave.Bytewise.closing_braces_found_first` — what the searches for closing braces find.
-/

namespace ShaderWeave

namespace Bytewise

open Text Bytes Scan

/-! ### Offsets outside comments -/

/-- **A scan meets an offset outside comments**: from the first offset on it comes to the second one, where
there is a byte and no comment starts. The bytes are those outside comments that it has passed. -/
inductive Meets (src : Bytes) : Nat → Nat → Bytes → Prop where
  | here {i : Nat} {b : UInt8} (hb : src[i]? = some b) (hlive : skipComment src i = .ok none) :
      Meets src i i []
  | byte {i c : Nat} {b : UInt8} {passed : Bytes} (hb : src[i]? = some b)
      (hlive : skipComment src i = .ok none) (h : Meets src (i + 1) c passed) :
      Meets src i c (b :: passed)
  | comment {i j c : Nat} {passed : Bytes} (hcomment : skipComment src i = .ok (some j))
      (h : Meets src j c passed) : Meets src i c passed

/-- How many more braces are opened than closed among bytes. -/
def excess (bs : Bytes) : Int :=
  bs.count (ascii '{') - bs.count (ascii '}')

/-- The depth behind a byte, given the depth in front of it. A closing brace with nothing to close leaves
the depth at zero. -/
def depthAfter (depth : Nat) (b : UInt8) : Nat :=
  if b = ascii '{' then depth + 1 else if b = ascii '}' then depth - 1 else depth

/-- **A closing brace that matches an opening one**: it is outside comments, and from the opening one up to
it, with both, as many braces are closed as are opened. -/
structure MatchesAt (src : Bytes) (opening close : Nat) : Prop where
  brace : src[close]? = some (ascii '}')
  level : ∃ passed, Meets src opening close passed ∧ excess (passed ++ [ascii '}']) = 0

/-- **A `}}` that closes a double block**: it starts outside comments, and the depth, counted from the start
of the body, is zero there. -/
structure ClosesAt (src : Bytes) (bodyStart close : Nat) : Prop where
  braces : src[close]? = some (ascii '}') ∧ src[close + 1]? = some (ascii '}')
  level : ∃ passed, Meets src bodyStart close passed ∧ passed.foldl depthAfter 0 = 0

/-- A comment at any offset is stepped over, without a fault. -/
theorem skipComment_cases (S : Text) (i : Nat) :
    skipComment (utf8 S) i = .ok none ∨ ∃ j, i < j ∧ skipComment (utf8 S) i = .ok (some j) := by
  by_cases hslash : (utf8 S)[i]? = some (ascii '/')
  · obtain ⟨s, hs, rfl⟩ := exists_place_of_ascii (by decide) hslash
    rw [skipComment_place hs]
    cases hcomment : comment? ('/' :: s) with
    | none => exact .inl rfl
    | some p =>
      have hr := suffix_of_comment? hcomment
      have hne : p.2 ≠ '/' :: s := by
        intro heq
        have := hr.length_le
        rw [heq, List.length_cons] at this
        omega
      exact .inr ⟨_, place_lt hs (hr.trans (List.suffix_cons _ s)) hne, rfl⟩
  · refine .inl ?_
    cases hb : (utf8 S)[i]? with
    | none =>
      have := List.getElem?_eq_none_iff.1 hb
      rw [skipComment, if_pos (by omega)]
      rfl
    | some b => exact skipComment_of_ne hb fun hne => hslash (hne ▸ hb)

section

variable {src : Bytes} {i c : Nat} {b : UInt8} {passed : Bytes}

/-- A scan meets nothing behind the end of the bytes. -/
theorem not_meets_of_none (hb : src[i]? = none) : ¬Meets src i c passed := by
  have hlength := List.getElem?_eq_none_iff.1 hb
  intro h
  cases h with
  | here hb' _ => exact nomatch hb.symm.trans hb'
  | byte hb' _ _ => exact nomatch hb.symm.trans hb'
  | comment hcomment _ =>
    rw [skipComment, if_pos (by omega)] at hcomment
    cases hcomment

/-- From a comment a scan meets what it meets from the end of the comment. -/
theorem meets_of_comment_iff {j : Nat} (hcomment : skipComment src i = .ok (some j)) :
    Meets src i c passed ↔ Meets src j c passed := by
  refine ⟨fun h => ?_, .comment hcomment⟩
  cases h with
  | here _ hlive => exact nomatch hcomment.symm.trans hlive
  | byte _ hlive _ => exact nomatch hcomment.symm.trans hlive
  | comment hcomment' h =>
    cases hcomment.symm.trans hcomment'
    exact h

/-- From a byte outside comments a scan meets that byte, and then what it meets from the next one. -/
theorem meets_of_live_iff (hb : src[i]? = some b) (hlive : skipComment src i = .ok none) :
    Meets src i c passed ↔
      (c = i ∧ passed = []) ∨ ∃ behind, passed = b :: behind ∧ Meets src (i + 1) c behind := by
  constructor
  · intro h
    cases h with
    | here => exact .inl ⟨rfl, rfl⟩
    | byte hb' _ h =>
      cases hb.symm.trans hb'
      exact .inr ⟨_, rfl, h⟩
    | comment hcomment _ => exact nomatch hlive.symm.trans hcomment
  · rintro (⟨rfl, rfl⟩ | ⟨behind, rfl, h⟩)
    · exact .here hb hlive
    · exact .byte hb hlive h

end

/-- A scan goes forward. -/
theorem Meets.le {S : Text} {i c : Nat} {passed : Bytes} (h : Meets (utf8 S) i c passed) : i ≤ c := by
  induction h with
  | here => exact Nat.le_refl _
  | byte _ _ _ ih => omega
  | @comment i j _ _ hcomment _ ih =>
    rcases skipComment_cases S i with hlive | ⟨j', hij, hcomment'⟩
    · exact nomatch hlive.symm.trans hcomment
    · cases hcomment'.symm.trans hcomment
      omega

/-! ### Searches -/

/-- **The first offset of a set is found**, and nothing exactly if the set is empty. -/
structure FindsFirst (offsets : Set Nat) (found : Option Nat) : Prop where
  some_iff : ∀ c, found = some c ↔ IsLeast offsets c
  none_iff : found = none ↔ ∀ c, c ∉ offsets

/-- The least offset of a set is its first one. -/
theorem findsFirst_of_isLeast {offsets : Set Nat} {c : Nat} (h : IsLeast offsets c) :
    FindsFirst offsets (some c) := by
  refine ⟨fun c' => ⟨?_, fun h' => congrArg some (h.unique h')⟩, ?_⟩
  · rintro ⟨⟩
    exact h
  · exact ⟨nofun, fun hnone => absurd h.1 (hnone c)⟩

/-- Nothing is found in an empty set. -/
theorem findsFirst_of_forall {offsets : Set Nat} (h : ∀ c, c ∉ offsets) : FindsFirst offsets none :=
  ⟨fun c => ⟨nofun, fun hc => absurd hc.1 (h c)⟩, ⟨fun _ => h, fun _ => rfl⟩⟩

section

variable {σ τ : Type}

/-- **The offsets at which a search is to stop**: those outside comments where a condition holds of what
the bytes passed make of a value. -/
def stops (src : Bytes) (update : τ → UInt8 → τ) (stop : Nat → τ → Prop) (i : Nat) (t : τ) :
    Set Nat :=
  {c | ∃ passed, Meets src i c passed ∧ stop c (passed.foldl update t)}

/-- **A loop that searches**: at an offset where the condition holds it is done, and else it goes on to the
next one. Its state is related to the value that the condition is about. -/
structure Searches (src : Bytes) (step : Nat → UInt8 → σ → Guarded (Step σ (Option Nat)))
    (update : τ → UInt8 → τ) (stop : Nat → τ → Prop) (Related : τ → σ → Prop) : Prop where
  done : ∀ {i b t state}, src[i]? = some b → Related t state → stop i t →
    step i b state = .ok (.done (some i))
  next : ∀ {i b t state}, src[i]? = some b → Related t state → ¬stop i t →
    ∃ state', step i b state = .ok (.next (i + 1) state') ∧ Related (update t b) state'

variable {src : Bytes} {update : τ → UInt8 → τ} {stop : Nat → τ → Prop} {i : Nat} {b : UInt8}
  {t : τ}

/-- A search that starts at a comment is to stop where it is from the end of the comment. -/
theorem stops_of_comment {j : Nat} (hcomment : skipComment src i = .ok (some j)) :
    stops src update stop i t = stops src update stop j t := by
  simp only [stops, meets_of_comment_iff hcomment]

/-- Where the condition does not hold, the offsets are those behind the byte. -/
theorem stops_of_live (hb : src[i]? = some b) (hlive : skipComment src i = .ok none)
    (hstop : ¬stop i t) : stops src update stop i t = stops src update stop (i + 1) (update t b) := by
  ext c
  simp only [stops, Set.mem_ofPred_eq, meets_of_live_iff hb hlive]
  constructor
  · rintro ⟨passed, ⟨rfl, rfl⟩ | ⟨behind, rfl, hmeets⟩, hc⟩
    · exact absurd hc hstop
    · exact ⟨behind, hmeets, hc⟩
  · rintro ⟨behind, hmeets, hc⟩
    exact ⟨b :: behind, .inr ⟨behind, rfl, hmeets⟩, hc⟩

variable {step : Nat → UInt8 → σ → Guarded (Step σ (Option Nat))}
  {finish : σ → Guarded (Option Nat)} {state : σ}

/-- A loop that comes to a comment goes on behind it. -/
theorem scan_of_comment {j : Nat} (hb : src[i]? = some b) (hcomment : skipComment src i = .ok (some j))
    (hj : i < j) : scan src step finish i state = scan src step finish j state :=
  walk_of_next hb (by rw [hcomment]; rfl) hj

/-- A loop that is done in a turn gives what it found. -/
theorem scan_of_done {found : Option Nat} (hb : src[i]? = some b)
    (hlive : skipComment src i = .ok none) (hstep : step i b state = .ok (.done found)) :
    scan src step finish i state = .ok found :=
  walk_of_done hb (by rw [hlive]; exact hstep)

/-- A loop that goes on in a turn does so from the next offset. -/
theorem scan_of_next {state' : σ} (hb : src[i]? = some b) (hlive : skipComment src i = .ok none)
    (hstep : step i b state = .ok (.next (i + 1) state')) :
    scan src step finish i state = scan src step finish (i + 1) state' :=
  walk_of_next hb (by rw [hlive]; exact hstep) (Nat.lt_succ_self i)

/-- **A loop that searches finds the first offset at which it is to stop.**

**Proof sketch.** Induction on how far the end is. At a byte outside comments either the condition holds,
and the offset is the first one, or the offsets are those behind the byte; a comment has none. -/
theorem Searches.exists_found {S : Text} {Related : τ → σ → Prop}
    (h : Searches (utf8 S) step update stop Related) (i : Nat) (hrelated : Related t state) :
    ∃ found, scan (utf8 S) step (fun _ => .ok none) i state = .ok found ∧
      FindsFirst (stops (utf8 S) update stop i t) found := by
  generalize hn : (utf8 S).length - i = n
  induction n using Nat.strongRecOn generalizing i t state with
  | ind n ih =>
    cases hb : (utf8 S)[i]? with
    | none =>
      refine ⟨none, by rw [scan, walk_of_none hb], findsFirst_of_forall ?_⟩
      rintro c ⟨passed, hmeets, -⟩
      exact not_meets_of_none hb hmeets
    | some b =>
      have hi := (List.getElem?_eq_some_iff.1 hb).1
      rcases skipComment_cases S i with hlive | ⟨j, hij, hcomment⟩
      · by_cases hstop : stop i t
        · refine ⟨some i, scan_of_done hb hlive (h.done hb hrelated hstop),
            findsFirst_of_isLeast ⟨⟨[], .here hb hlive, hstop⟩, ?_⟩⟩
          -- the scan goes forward, so it meets nothing in front of where it is
          rintro c ⟨passed, hmeets, -⟩
          exact hmeets.le
        · obtain ⟨state', hstep, hrelated'⟩ := h.next hb hrelated hstop
          rw [scan_of_next hb hlive hstep, stops_of_live hb hlive hstop]
          exact ih _ (by omega) (i + 1) hrelated' rfl
      · rw [scan_of_comment hb hcomment hij, stops_of_comment hcomment]
        exact ih _ (by omega) j hrelated rfl

end

/-! ### The matching brace -/

/-- The number of open braces behind a byte, which may be negative. -/
def balanceAfter (e : Int) (b : UInt8) : Int :=
  if b = ascii '{' then e + 1 else if b = ascii '}' then e - 1 else e

/-- One byte in front changes the excess by its own brace. -/
theorem excess_cons (b : UInt8) (bs : Bytes) : excess (b :: bs) = balanceAfter (excess bs) b := by
  simp only [excess, balanceAfter, List.count_cons, beq_iff_eq]
  by_cases hopen : b = ascii '{'
  · have hclose : ascii '{' ≠ ascii '}' := by decide
    simp only [hopen, if_true, if_neg hclose]
    omega
  · by_cases hclose : b = ascii '}'
    · have hne : ascii '}' ≠ ascii '{' := by decide
      simp only [hclose, if_true, if_neg hne]
      omega
    · simp only [if_neg hopen, if_neg hclose]
      omega

/-- What bytes add to the balance does not depend on the balance before them. -/
theorem balanceAfter_add (e f : Int) (b : UInt8) : balanceAfter e b + f = e + balanceAfter f b := by
  unfold balanceAfter
  split_ifs <;> omega

/-- The balance behind bytes is the one before them and their excess. -/
theorem foldl_balanceAfter (bs : Bytes) (e : Int) : bs.foldl balanceAfter e = e + excess bs := by
  induction bs generalizing e with
  | nil => simp [excess]
  | cons b bs ih => rw [List.foldl_cons, ih, excess_cons, balanceAfter_add]

/-- The condition of the search for the matching brace: a `}` stands at the offset, and one brace is open. -/
def IsLastClose (src : Bytes) (i : Nat) (e : Int) : Prop :=
  src[i]? = some (ascii '}') ∧ e = 1

/-- The matching braces are the offsets at which the search for one is to stop. -/
theorem setOf_matchesAt_eq (src : Bytes) (i : Nat) :
    {c | MatchesAt src i c} = stops src balanceAfter (IsLastClose src) i 0 := by
  have hlevel (passed : Bytes) :
      excess (passed ++ [ascii '}']) = 0 ↔ passed.foldl balanceAfter 0 = 1 := by
    rw [← Int.zero_add (excess (passed ++ _)), ← foldl_balanceAfter, List.foldl_append]
    change List.foldl balanceAfter 0 passed - 1 = 0 ↔ _
    omega
  ext c
  simp only [stops, IsLastClose, Set.mem_ofPred_eq]
  constructor
  · rintro ⟨hbrace, passed, hmeets, hzero⟩
    exact ⟨passed, hmeets, hbrace, (hlevel passed).1 hzero⟩
  · rintro ⟨passed, hmeets, hbrace, hone⟩
    exact ⟨hbrace, passed, hmeets, (hlevel passed).2 hone⟩

/-- Behind the opening brace the loop searches, and the number of open braces that it counts is the balance
and positive: at the `}` that would take it to zero the loop is done. -/
theorem searches_braceStep (src : Bytes) :
    Searches src braceStep balanceAfter (IsLastClose src) fun e depth => e = depth ∧ 0 < depth := by
  have hne : ascii '}' ≠ ascii '{' := by decide
  refine ⟨?_, ?_⟩
  · rintro i b _ depth hb ⟨rfl, -⟩ ⟨hclose, hone⟩
    rw [hb, Option.some.injEq] at hclose
    obtain rfl : depth = 1 := by omega
    rw [braceStep, hclose, if_neg hne, if_pos rfl]
    rfl
  · rintro i b _ depth hb ⟨rfl, hpos⟩ hstop
    rw [braceStep, balanceAfter]
    by_cases hopen : b = ascii '{'
    · refine ⟨depth + 1, by rw [if_pos hopen], ?_, Nat.succ_pos depth⟩
      rw [if_pos hopen]
      rfl
    · by_cases hclose : b = ascii '}'
      · have hdepth : depth ≠ 1 := by
          rintro rfl
          exact hstop ⟨by rw [hb, hclose], rfl⟩
        refine ⟨depth - 1, ?_, ?_, by omega⟩
        · rw [if_neg hopen, if_pos hclose, if_neg (by omega), if_neg (by omega)]
        · rw [if_neg hopen, if_pos hclose]
          omega
      · exact ⟨depth, by rw [if_neg hopen, if_neg hclose], by rw [if_neg hopen, if_neg hclose], hpos⟩

/-- **The search for the matching brace finds the first one.** -/
theorem exists_findMatchingBrace {S : Text} {i : Nat} (h : (utf8 S)[i]? = some (ascii '{')) :
    ∃ found, findMatchingBrace (utf8 S) i = .ok found ∧
      FindsFirst {c | MatchesAt (utf8 S) i c} found := by
  have hlive : skipComment (utf8 S) i = .ok none := skipComment_of_ne h (by decide)
  have hstop : ¬IsLastClose (utf8 S) i 0 := fun hstop => absurd hstop.2 (by decide)
  have hstep : braceStep i (ascii '{') 0 = .ok (.next (i + 1) 1) := by
    rw [braceStep, if_pos rfl]
  rw [setOf_matchesAt_eq, stops_of_live h hlive hstop, findMatchingBrace, scan_of_next h hlive hstep]
  exact (searches_braceStep (utf8 S)).exists_found (i + 1) ⟨rfl, Nat.one_pos⟩

/-! ### The closing `}}` -/

/-- The condition of the search for the closing `}}`: it stands at the offset, and no brace is open. -/
def IsDoubleClose (src : Bytes) (i depth : Nat) : Prop :=
  (src[i]? = some (ascii '}') ∧ src[i + 1]? = some (ascii '}')) ∧ depth = 0

/-- The closing `\x7d\x7d` are the offsets at which the search for one is to stop. -/
theorem setOf_closesAt_eq (src : Bytes) (i : Nat) :
    {c | ClosesAt src i c} = stops src depthAfter (IsDoubleClose src) i 0 := by
  ext c
  simp only [stops, IsDoubleClose, Set.mem_ofPred_eq]
  constructor
  · rintro ⟨hbraces, passed, hmeets, hzero⟩
    exact ⟨passed, hmeets, hbraces, hzero⟩
  · rintro ⟨passed, hmeets, hbraces, hzero⟩
    exact ⟨hbraces, passed, hmeets, hzero⟩

/-- The loop for the closing `\x7d\x7d` searches, with the depth as its state. -/
theorem searches_doubleStep (src : Bytes) :
    Searches src (doubleStep src) depthAfter (IsDoubleClose src) Eq := by
  have hne : ascii '}' ≠ ascii '{' := by decide
  refine ⟨?_, ?_⟩
  · rintro i b _ depth hb rfl ⟨⟨hclose, hnext⟩, rfl⟩
    rw [hb, Option.some.injEq] at hclose
    rw [doubleStep, hclose, if_neg hne, if_neg fun h => Nat.lt_irrefl 0 h.2, if_pos ⟨rfl, hnext⟩]
  · rintro i b depth _ hb rfl hstop
    rw [doubleStep, depthAfter]
    by_cases hopen : b = ascii '{'
    · exact ⟨depth + 1, by rw [if_pos hopen], by rw [if_pos hopen]⟩
    · by_cases hclose : b = ascii '}'
      · refine ⟨depth - 1, ?_, by rw [if_neg hopen, if_pos hclose]⟩
        rcases Nat.eq_zero_or_pos depth with rfl | hpos
        · -- a single closing brace with nothing to close is passed over
          have hsingle : ¬(b = ascii '}' ∧ src[i + 1]? = some (ascii '}')) := fun h =>
            hstop ⟨⟨by rw [hb, hclose], h.2⟩, rfl⟩
          rw [if_neg hopen, if_neg fun h => Nat.lt_irrefl 0 h.2, if_neg hsingle]
        · rw [if_neg hopen, if_pos ⟨hclose, hpos⟩]
      · refine ⟨depth, ?_, by rw [if_neg hopen, if_neg hclose]⟩
        rw [if_neg hopen, if_neg fun h => hclose h.1, if_neg fun h => hclose h.1]

/-- **The search for the closing `}}` finds the first one.** -/
theorem exists_findDoubleClose (S : Text) (i : Nat) :
    ∃ found, findDoubleClose (utf8 S) i = .ok found ∧
      FindsFirst {c | ClosesAt (utf8 S) i c} found := by
  rw [setOf_closesAt_eq, findDoubleClose]
  exact (searches_doubleStep (utf8 S)).exists_found i rfl

/-- **The `}}` behind a balanced body closes it**, whatever follows. -/
theorem cutAtDouble?_of_balanced {body : Text} (hclosed : CommentsClosed body)
    (hbalanced : Balanced (lexemes body)) (rest : Text) :
    cutAtDouble? 0 (body ++ '}' :: '}' :: rest) = some (body, rest) :=
  Option.some.inj (doubleBlock?_of_balanced hclosed hbalanced rest)

/-- The closing `\x7d\x7d` of a balanced body is found right behind it, wherever the body stands. -/
theorem findDoubleClose_of_balanced {body : Text} (hclosed : CommentsClosed body)
    (hbalanced : Balanced (lexemes body)) (before rest : Text) :
    findDoubleClose (utf8 (before ++ (body ++ '}' :: '}' :: rest))) (byteSize before) =
      .ok (some (byteSize before + byteSize body)) := by
  have hsuffix := List.suffix_append before (body ++ '}' :: '}' :: rest)
  have hstart : place (before ++ (body ++ '}' :: '}' :: rest)) (body ++ '}' :: '}' :: rest) =
      byteSize before := by
    rw [place, byteSize_append, Nat.add_sub_cancel]
  have hfind := findDoubleClose_place hsuffix
  have hend := place_append hsuffix
  rw [hstart] at hfind hend
  rw [hfind, cutAtDouble?_of_balanced hclosed hbalanced, hend]
  rfl

/-! ### Both searches -/

/-- **The searches for closing braces find the first one.** From an opening brace on, that is the first `}`
outside comments at which as many braces are closed as were opened, and from any offset on the first `}}`
outside comments at depth zero; nothing is found exactly if there is none. The cuts of texts are made at
these offsets. Behind a body with balanced braces and closed comments, the `}}` that follows is found. -/
theorem closing_braces_found_first (S : Text) :
    (∀ i, (utf8 S)[i]? = some (ascii '{') →
      ∃ found, findMatchingBrace (utf8 S) i = .ok found ∧
        FindsFirst {c | MatchesAt (utf8 S) i c} found) ∧
    (∀ i, ∃ found, findDoubleClose (utf8 S) i = .ok found ∧
      FindsFirst {c | ClosesAt (utf8 S) i c} found) ∧
    (∀ s, '{' :: s <:+ S →
      FindsFirst {c | MatchesAt (utf8 S) (place S ('{' :: s)) c} (placeOfBrace S (cutAtBrace? 0 s))) ∧
    (∀ s, s <:+ S →
      FindsFirst {c | ClosesAt (utf8 S) (place S s) c} (placeOfDouble S (cutAtDouble? 0 s))) ∧
    ∀ before body rest, S = before ++ (body ++ '}' :: '}' :: rest) → CommentsClosed body →
      Balanced (lexemes body) →
      cutAtDouble? 0 (body ++ '}' :: '}' :: rest) = some (body, rest) ∧
        findDoubleClose (utf8 S) (byteSize before) = .ok (some (byteSize before + byteSize body)) := by
  refine ⟨fun i hi => exists_findMatchingBrace hi, exists_findDoubleClose S, ?_, ?_, ?_⟩
  · intro s hs
    have hopen := (getElem?_place_eq_iff (by decide) hs).2 rfl
    obtain ⟨found, hfound, hfirst⟩ := exists_findMatchingBrace hopen
    rw [findMatchingBrace_place hs] at hfound
    cases hfound
    exact hfirst
  · intro s hs
    obtain ⟨found, hfound, hfirst⟩ := exists_findDoubleClose S (place S s)
    rw [findDoubleClose_place hs] at hfound
    cases hfound
    exact hfirst
  · rintro before body rest rfl hclosed hbalanced
    exact ⟨cutAtDouble?_of_balanced hclosed hbalanced rest,
      findDoubleClose_of_balanced hclosed hbalanced before rest⟩

/-- A body that ends in a brace, with a brace in a comment. -/
def nestedBody : Text :=
  "a".toList ++ braced (ClosedComment.block " \x7d ".toList (by decide)).text

/-- The body is well-braced, as its brace in a comment does not count. -/
theorem wellBraced_nestedBody : WellBraced nestedBody :=
  (WellBraced.of_isUncommented (by decide) (by decide) (by decide)).append
    (WellBraced.closedComment _).braced

/-- The braces of that body, behind a character of two bytes and in front of some text. -/
theorem closing_braces_found_first_nested :
    let S := "é\x7b\x7b".toList ++ (nestedBody ++ '}' :: '}' :: " x".toList)
    (utf8 S)[5]? = some (ascii '{') ∧ IsLeast {c | MatchesAt (utf8 S) 5 c} 13 ∧
      IsLeast {c | ClosesAt (utf8 S) 4 c} 14 := by
  intro S
  obtain ⟨hmatching, hdouble, -, -, hbalanced⟩ := closing_braces_found_first S
  have hopen : (utf8 S)[5]? = some (ascii '{') := by decide
  have hbrace : findMatchingBrace (utf8 S) 5 = .ok (some 13) := by decide +kernel
  have hclose : findDoubleClose (utf8 S) 4 = .ok (some 14) :=
    (hbalanced _ _ _ rfl wellBraced_nestedBody.complete.commentsClosed wellBraced_nestedBody.balanced).2
  obtain ⟨found, hfound, hfirst⟩ := hmatching 5 hopen
  obtain ⟨found', hfound', hfirst'⟩ := hdouble 4
  rw [hbrace] at hfound
  rw [hclose] at hfound'
  cases hfound
  cases hfound'
  exact ⟨hopen, (hfirst.some_iff 13).1 rfl, (hfirst'.some_iff 14).1 rfl⟩

end Bytewise

end ShaderWeave
