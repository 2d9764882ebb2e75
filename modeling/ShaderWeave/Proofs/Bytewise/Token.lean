import ShaderWeave.Proofs.Bytewise.Walk
import ShaderWeave.Proofs.Scan.Balance
import ShaderWeave.Proofs.Text.Occurrence

set_option autoImplicit false

/-!
# Tokens and comments in bytes

The readers of tokens and of comments, for a program that holds the bytes of a text. Where the reader of a
text has an end of the text as its result, here an offset is: the place of that end.

## Main definitions

* `ShaderWeave.Bytewise.skipWhile`, `ShaderWeave.Bytewise.readWord` — bytes of a class, and a word.
* `ShaderWeave.Bytewise.find?` — where some bytes occur first.
* `ShaderWeave.Bytewise.skipComment` — the offset behind a comment.
* `ShaderWeave.Bytewise.readUpTo`, `ShaderWeave.Bytewise.readParens` — what stands up to a closing
  character, and the argument in parentheses.

## Main results

* `ShaderWeave.Bytewise.readWord_place`, `ShaderWeave.Bytewise.skipComment_place`,
  `ShaderWeave.Bytewise.readParens_place` — at a place nothing goes wrong, and what is read is what the
  readers of texts read.
-/

namespace ShaderWeave

namespace Bytewise

open Text Bytes Scan

variable {S s t r : Text}

/-! ### Words -/

/-- The offset behind the bytes of a class. -/
def skipWhile (class_ : UInt8 → Bool) (src : Bytes) (i : Nat) : Nat :=
  match _ : src[i]? with
  | some b => if class_ b then skipWhile class_ src (i + 1) else i
  | none => i
termination_by src.length - i
decreasing_by
  have := (List.getElem?_eq_some_iff.1 ‹_›).1
  omega

/-- The offset behind blanks. -/
def skipBlanks (src : Bytes) (i : Nat) : Nat :=
  skipWhile (ofClass isBlank) src i

/-- **The word at an offset**, with the offset behind it. -/
def readWord (src : Bytes) (i : Nat) : Reading (Bytes × Nat) := do
  let stop := skipWhile (ofClass isWordChar) src i
  guard (i < stop)
  let word ← liftM (slice src i stop)
  return (word, stop)

/-- Skipping bytes of a class goes as far as they follow one another. -/
theorem skipWhile_eq (class_ : UInt8 → Bool) (src : Bytes) (i : Nat) :
    skipWhile class_ src i = i + ((src.drop i).takeWhile class_).length := by
  fun_induction skipWhile class_ src i with
  | case1 i b hb hclass ih =>
    have hdrop : src.drop i = b :: src.drop (i + 1) := by
      obtain ⟨hi, rfl⟩ := List.getElem?_eq_some_iff.1 hb
      exact List.drop_eq_getElem_cons hi
    rw [ih, hdrop, List.takeWhile_cons_of_pos hclass, List.length_cons]
    omega
  | case2 i b hb hclass =>
    have hdrop : src.drop i = b :: src.drop (i + 1) := by
      obtain ⟨hi, rfl⟩ := List.getElem?_eq_some_iff.1 hb
      exact List.drop_eq_getElem_cons hi
    rw [hdrop, List.takeWhile_cons_of_neg hclass]
    rfl
  | case3 i hnone =>
    rw [List.drop_eq_nil_of_le (List.getElem?_eq_none_iff.1 hnone)]
    rfl

/-- The place behind the characters of a class. -/
theorem skipWhile_place {bytes : UInt8 → Bool} {chars : Char → Bool} (hclass : Agrees bytes chars)
    (h : s <:+ S) : skipWhile bytes (utf8 S) (place S s) = place S (s.dropWhile chars) := by
  rw [skipWhile_eq, drop_place h, takeWhile_utf8 hclass, length_utf8]
  have := place_append (S := S) (t := s.takeWhile chars) (r := s.dropWhile chars)
    (by rwa [List.takeWhile_append_dropWhile])
  rwa [List.takeWhile_append_dropWhile] at this

/-- Blank bytes go together with blanks. -/
theorem agrees_isBlank : Agrees (ofClass isBlank) isBlank := by
  refine agrees_ofClass false fun c hc => ?_
  simp only [isBlank, Bool.or_eq_false_iff, decide_eq_false_iff_not]
  refine ⟨⟨⟨⟨?_, ?_⟩, ?_⟩, ?_⟩, ?_⟩ <;> rintro rfl <;> exact absurd hc (by decide)

/-- The bytes of words go together with the characters of words. -/
theorem agrees_isWordChar : Agrees (ofClass isWordChar) isWordChar := by
  refine agrees_ofClass false fun c hc => ?_
  have hbound : 128 ≤ c.val.toNat := hc
  have halphanum : c.isAlphanum = false := by
    delta Char.isAlphanum Char.isAlpha Char.isUpper Char.isLower Char.isDigit
    simp only [Bool.or_eq_false_iff, Bool.and_eq_false_iff, decide_eq_false_iff_not, ge_iff_le,
      UInt32.le_iff_toNat_le]
    simp
    omega
  have hunderscore : c ≠ '_' := by
    rintro rfl
    exact absurd hc (by decide)
  rw [isWordChar, halphanum, decide_eq_false hunderscore, Bool.or_false]

/-- Blanks are skipped in bytes up to where they end in the text. -/
theorem skipBlanks_place (h : s <:+ S) :
    skipBlanks (utf8 S) (place S s) = place S (Text.skipBlanks s) :=
  skipWhile_place agrees_isBlank h

/-- **The word at a place.** -/
theorem readWord_place (h : s <:+ S) :
    (readWord (utf8 S) (place S s)).run = .ok ((word? s).map fun p => (utf8 p.1, place S p.2)) := by
  have hsplit : s.takeWhile isWordChar ++ s.dropWhile isWordChar = s := List.takeWhile_append_dropWhile
  have hplace := place_append (S := S) (t := s.takeWhile isWordChar) (r := s.dropWhile isWordChar)
    (by rwa [hsplit])
  have hslice := slice_place (S := S) (t := s.takeWhile isWordChar) (r := s.dropWhile isWordChar)
    (by rwa [hsplit])
  rw [hsplit] at hplace hslice
  have hlt : place S s < place S (s.dropWhile isWordChar) ↔ ¬s.takeWhile isWordChar = [] := by
    rw [← hplace, Nat.lt_add_right_iff_pos, Nat.pos_iff_ne_zero, ← length_utf8, ne_eq,
      List.length_eq_zero_iff, utf8_eq_nil_iff]
  rw [readWord, skipWhile_place agrees_isWordChar h, word?, Reading.run_guard_bind hlt, ite_not]
  split
  · rfl
  · rw [Reading.run_lift_bind hslice]
    rfl

/-- A word at the start of a text is read from its bytes. -/
theorem readWord_start (s : Text) :
    (readWord (utf8 s) 0).run = .ok ((word? s).map fun p => (utf8 p.1, place s p.2)) := by
  have := readWord_place (List.suffix_refl s)
  rwa [place_self] at this

/-- **The offset behind given characters** that the bytes at an offset start with. -/
def readPrefix (pat : Text) (src : Bytes) (i : Nat) : Reading Nat := do
  let rest ← liftM (sliceFrom src i)
  guard ((utf8 pat).isPrefixOf rest)
  return i + (utf8 pat).length

/-- **The ASCII characters at a place.** -/
theorem readPrefix_place {pat : Text} (hpat : pat.IsAscii) (h : s <:+ S) :
    (readPrefix pat (utf8 S) (place S s)).run = .ok ((after? pat s).map (place S)) := by
  have hstart := isPrefixOf_utf8 pat hpat s
  rw [readPrefix, Reading.run_lift_bind (sliceFrom_place h)]
  cases hafter : after? pat s with
  | none =>
    rw [hafter] at hstart
    rw [Reading.run_guard_bind (q := False) (by rw [hstart]; simp)]
    rfl
  | some r =>
    rw [hafter] at hstart
    rw [Reading.run_guard_bind (q := True) (by rw [hstart]; simp), if_pos trivial, length_utf8,
      place_after? h hafter]
    rfl

/-! ### Searching -/

/-- **Where some bytes occur first**, if they occur. -/
def find? (pat : Bytes) : Bytes → Option Nat
  | [] => if pat = [] then some 0 else none
  | b :: bs => if pat.isPrefixOf (b :: bs) then some 0 else (find? pat bs).map (· + 1)

/-- In bytes that are not ASCII no ASCII character is found. -/
theorem find?_of_high {a : UInt8} (ha : a.toNat < 128) (pat : Bytes) {bs : Bytes}
    (hbs : ∀ b ∈ bs, 128 ≤ b.toNat) (rest : Bytes) :
    find? (a :: pat) (bs ++ rest) = (find? (a :: pat) rest).map (· + bs.length) := by
  induction bs with
  | nil => simp
  | cons b bs ih =>
    rw [List.forall_mem_cons] at hbs
    have hne : (a == b) = false := by
      refine beq_eq_false_iff_ne.2 ?_
      rintro rfl
      omega
    rw [List.cons_append, find?, List.isPrefixOf_cons_cons, hne, Bool.false_and, if_neg (by simp),
      ih hbs.2, Option.map_map]
    rfl

/-- A search for ASCII characters goes from character to character. -/
theorem find?_utf8_cons (a : Char) (pat : Text) (hpat : IsAscii (a :: pat)) (c : Char)
    (s : Text) :
    find? (utf8 (a :: pat)) (utf8 (c :: s)) =
      if (after? (a :: pat) (c :: s)).isSome then some 0
      else (find? (utf8 (a :: pat)) (utf8 s)).map (· + byteSize [c]) := by
  have ha := (List.forall_mem_cons.1 hpat).1
  have hsize : byteSize [c] = (String.utf8EncodeChar c).length := by
    rw [← length_utf8, utf8_cons, utf8_nil, List.append_nil]
  rcases Nat.lt_or_ge c.toNat 128 with hc | hc
  · have hstart := isPrefixOf_utf8 (a :: pat) hpat (c :: s)
    rw [hsize, utf8EncodeChar_of_ascii hc]
    rw [utf8_cons_of_ascii hc] at hstart ⊢
    rw [find?, hstart, List.length_singleton]
  · have hne : a ≠ c := by
      rintro rfl
      omega
    rw [after?, if_neg hne, Option.isSome_none, if_neg (by simp), hsize, utf8_cons c s,
      utf8_cons_of_ascii ha]
    exact find?_of_high ((toNat_ascii ha).symm ▸ ha) _ (utf8EncodeChar_high hc) _

/-- A character is found where it occurs first. -/
theorem find?_append_cons {a : Char} (ha : a.toNat < 128) {u : Text} (hu : a ∉ u) (r : Text) :
    find? [ascii a] (utf8 (u ++ a :: r)) = some (byteSize u) := by
  have hstep := find?_utf8_cons a [] (List.forall_mem_singleton.2 ha)
  rw [utf8_cons_of_ascii ha, utf8_nil] at hstep
  induction u with
  | nil => rw [List.nil_append, hstep, after?, if_pos rfl]; rfl
  | cons c u ih =>
    rw [List.mem_cons, not_or] at hu
    rw [List.cons_append, hstep, after?, if_neg hu.1, Option.isSome_none, if_neg (by simp), ih hu.2,
      Option.map_some, byteSize_cons, byteSize_cons, byteSize_nil, Nat.add_zero, Nat.add_comm]

/-- A character that does not occur is not found. -/
theorem find?_of_notMem {a : Char} (ha : a.toNat < 128) (h : a ∉ s) :
    find? [ascii a] (utf8 s) = none := by
  have hstep := find?_utf8_cons a [] (List.forall_mem_singleton.2 ha)
  rw [utf8_cons_of_ascii ha, utf8_nil] at hstep
  induction s with
  | nil => simp [find?]
  | cons c s ih =>
    rw [List.mem_cons, not_or] at h
    rw [hstep, after?, if_neg h.1, Option.isSome_none, if_neg (by simp), ih h.2, Option.map_none]

/-- The offset behind the first occurrence of some bytes, from an offset on. Where there is none, it is
the end. -/
def behind (pat src : Bytes) (i : Nat) : Guarded Nat := do
  let rest ← sliceFrom src i
  return match find? pat rest with
    | some offset => i + offset + pat.length
    | none => src.length

/-- **Behind what is searched for** is the place where a cut leaves the rest. -/
theorem behind_place {pat : Bytes} (h : s <:+ S) (hs : t ++ r = s)
    (hfind : match find? pat (utf8 s) with
      | some offset => offset + pat.length = byteSize t
      | none => r = []) :
    behind pat (utf8 S) (place S s) = .ok (place S r) := by
  have hplace : place S s + byteSize t = place S r := by
    rw [← hs]
    exact place_append (by rwa [hs])
  rw [behind, sliceFrom_place h]
  simp only [bind, Except.bind, pure, Except.pure]
  split at hfind
  · rw [Nat.add_assoc, hfind, hplace]
  · rw [hfind, place_nil]

/-! ### Comments -/

/-- **The offset behind a comment**, if one starts at an offset. -/
def skipComment (src : Bytes) (i : Nat) : Guarded (Option Nat) :=
  if src.length ≤ i + 1 then return none
  else do
    if (← byteAt src i) ≠ ascii '/' then return none
    else
      let b ← byteAt src (i + 1)
      if b = ascii '/' then
        let stop ← behind [ascii '\n'] src i
        return some stop
      else if b = ascii '*' then
        let stop ← behind [ascii '*', ascii '/'] src (i + 2)
        return some stop
      else return none

/-- A cut behind the first newline is a search. -/
theorem find?_newline (s : Text) :
    match find? [ascii '\n'] (utf8 s) with
      | some offset => offset + 1 = byteSize (throughNewline s).1
      | none => (throughNewline s).2 = [] := by
  have hstep := find?_utf8_cons '\n' [] (by decide)
  induction s with
  | nil => rfl
  | cons c s ih =>
    rw [show [ascii '\n'] = utf8 ['\n'] from rfl] at ih ⊢
    rw [hstep]
    by_cases hc : c = '\n'
    · subst hc
      rfl
    · rw [after?, if_neg (Ne.symm hc), Option.isSome_none, if_neg (by simp), throughNewline, if_neg hc]
      cases hfind : find? (utf8 ['\n']) (utf8 s) with
      | none =>
        rw [hfind] at ih
        exact ih
      | some offset =>
        rw [hfind] at ih
        simp only [Option.map_some, byteSize_cons, byteSize_nil, ← ih]
        omega

/-- A cut behind the end of a block comment is a search. -/
theorem find?_blockEnd (s : Text) :
    match find? [ascii '*', ascii '/'] (utf8 s) with
      | some offset => offset + 2 = byteSize (throughBlockEnd s).1
      | none => (throughBlockEnd s).2 = [] := by
  have hstep := find?_utf8_cons '*' ['/'] (by decide)
  rw [show [ascii '*', ascii '/'] = utf8 ['*', '/'] from rfl]
  fun_induction throughBlockEnd s with
  | case1 => rfl
  | case2 s =>
    rw [hstep]
    rfl
  | case3 c s hend ih =>
    have hafter : after? ['*', '/'] (c :: s) = none := by
      refine Option.eq_none_iff_forall_ne_some.2 fun r hr => ?_
      obtain ⟨rfl, rfl⟩ := List.cons.inj (after?_eq_some_iff.1 hr)
      exact hend r rfl rfl
    rw [hstep, hafter, Option.isSome_none, if_neg (by simp)]
    cases hfind : find? (utf8 ['*', '/']) (utf8 s) with
    | none =>
      rw [hfind] at ih
      exact ih
    | some offset =>
      rw [hfind] at ih
      simp only [Option.map_some, byteSize_cons, byteSize_nil, ← ih]
      omega

/-- Where no comment starts, none is skipped. -/
theorem skipComment_of_ne {src : Bytes} {i : Nat} {b : UInt8} (h : src[i]? = some b) (hb : b ≠ ascii '/') :
    skipComment src i = .ok none := by
  rw [skipComment]
  split
  · rfl
  · rw [byteAt, h]
    exact if_pos hb

/-- What follows a slash decides on a comment. -/
theorem skipComment_of_slash {src : Bytes} {i : Nat} {b : UInt8} (h : src[i]? = some (ascii '/'))
    (hb : src[i + 1]? = some b) :
    skipComment src i =
      if b = ascii '/' then (behind [ascii '\n'] src i).map some
      else if b = ascii '*' then (behind [ascii '*', ascii '/'] src (i + 2)).map some
      else .ok none := by
  have hin : ¬src.length ≤ i + 1 := by
    have := (List.getElem?_eq_some_iff.1 hb).1
    omega
  rw [skipComment, if_neg hin, byteAt, h, byteAt, hb]
  rfl

/-- At a place behind which there are characters there is a byte, the first one of the first of them. -/
theorem exists_getElem?_place {c : Char} (h : c :: t <:+ S) :
    ∃ b, (utf8 S)[place S (c :: t)]? = some b ∧
      ∀ a : Char, a.toNat < 128 → (b = ascii a ↔ c = a) := by
  obtain ⟨b, bs, hbs, -⟩ := exists_utf8EncodeChar c
  have hb : (utf8 S)[place S (c :: t)]? = some b := by
    rw [getElem?_place h, utf8_cons, hbs]
    rfl
  refine ⟨b, hb, fun a ha => ?_⟩
  have := getElem?_place_eq_iff ha h
  rwa [hb, List.head?_cons, Option.some.injEq, Option.some.injEq] at this

/-- **The comment at a place.** -/
theorem skipComment_place (h : s <:+ S) :
    skipComment (utf8 S) (place S s) = .ok ((comment? s).map fun p => place S p.2) := by
  have hslash : ('/' : Char).toNat < 128 := by decide
  cases s with
  | nil =>
    rw [skipComment, place_nil, if_pos (Nat.le_succ _)]
    rfl
  | cons c t =>
    have ht : t <:+ S := (List.suffix_cons c t).trans h
    obtain ⟨b, hb, hbyte⟩ := exists_getElem?_place h
    by_cases hc : c = '/'
    · subst hc
      cases t with
      | nil =>
        rw [skipComment, place_cons hslash h, place_nil, if_pos (Nat.le_refl _)]
        rfl
      | cons d u =>
        obtain ⟨b', hb', hsecond⟩ := exists_getElem?_place ht
        have hplace := place_cons hslash h
        rw [skipComment_of_slash ((getElem?_place_eq_iff hslash h).2 rfl) (by rw [hplace]; exact hb')]
        by_cases hd : d = '/'
        · subst hd
          have hbehind := behind_place h (throughNewline_append _) (find?_newline ('/' :: '/' :: u))
          rw [if_pos ((hsecond '/' (by decide)).2 rfl), hbehind]
          rfl
        · by_cases hd' : d = '*'
          · subst hd'
            have hu : u <:+ S := (List.suffix_cons _ u).trans ht
            have hplace' : place S ('/' :: '*' :: u) + 2 = place S u := by
              rw [← place_cons (by decide) ht, ← hplace]
            have hbehind := behind_place hu (throughBlockEnd_append u) (find?_blockEnd u)
            rw [if_neg fun hne => hd ((hsecond '/' (by decide)).1 hne),
              if_pos ((hsecond '*' (by decide)).2 rfl), hplace', hbehind]
            rfl
          · have hnone : comment? ('/' :: d :: u) = none :=
              comment?_eq_none_iff.2 (by simp [after?, Ne.symm hd, Ne.symm hd'])
            rw [if_neg fun hne => hd ((hsecond '/' (by decide)).1 hne),
              if_neg fun hne => hd' ((hsecond '*' (by decide)).1 hne), hnone]
            rfl
    · -- a byte that is no slash starts no comment
      rw [skipComment_of_ne hb fun hne => hc ((hbyte '/' hslash).1 hne), comment?_cons_eq_none hc]
      rfl

/-! ### Arguments in parentheses -/

/-- What stands between the character at an offset and the next closing one, with the offset of that. -/
def readUpTo (close : Char) (src : Bytes) (i : Nat) : Reading (Text × Nat) := do
  let rest ← liftM (sliceFrom src i)
  let offset ← OptionT.mk (pure (find? [ascii close] rest))
  let inner ← liftM (slice src (i + 1) (i + offset))
  let inner ← liftM (text inner)
  return (inner, i + offset)

/-- What stands in a text up to a closing character, and what follows that. -/
def upTo? (close : Char) (s : Text) : Option (Text × Text) :=
  match s.dropWhile (· ≠ close) with
  | _ :: r => some (s.takeWhile (· ≠ close), r)
  | [] => none

/-- What stands up to a character that comes up for the first time is all before it. -/
theorem upTo?_append {close : Char} {u : Text} (h : close ∉ u) (r : Text) :
    upTo? close (u ++ close :: r) = some (u, r) := by
  obtain ⟨htake, hdrop⟩ := takeWhile_ne_append h r
  rw [upTo?, hdrop]
  exact congrArg (fun v => some (v, r)) htake

/-- Nothing stands up to a character that does not come up. -/
theorem upTo?_of_notMem {close : Char} (h : close ∉ s) : upTo? close s = none := by
  rw [upTo?, (takeWhile_ne_of_notMem h).2]

/-- The character and what is left behind it are an end of the text. -/
theorem suffix_of_upTo? {close : Char} {inner : Text} (h : upTo? close s = some (inner, r)) :
    close :: r <:+ s := by
  by_cases hmem : close ∈ s
  · obtain ⟨u, r', rfl, hu⟩ := List.eq_append_cons_of_mem hmem
    rw [upTo?_append hu, Option.some.injEq, Prod.mk.injEq] at h
    exact h.2 ▸ List.suffix_append u _
  · rw [upTo?_of_notMem hmem] at h
    cases h

/-- **What stands at a place up to a closing character.** -/
theorem readUpTo_place {opening close : Char} (hopening : opening.toNat < 128) (hclose : close.toNat < 128)
    (hne : opening ≠ close) (h : opening :: s <:+ S) :
    (readUpTo close (utf8 S) (place S (opening :: s))).run =
      .ok ((upTo? close s).map fun p => (p.1, place S (close :: p.2))) := by
  have hs : s <:+ S := (List.suffix_cons opening s).trans h
  rw [readUpTo, Reading.run_lift_bind (sliceFrom_place h)]
  by_cases hmem : close ∈ s
  · obtain ⟨u, r, rfl, hu⟩ := List.eq_append_cons_of_mem hmem
    have hfind := find?_append_cons (u := opening :: u) hclose (by simpa [hne.symm] using hu) r
    have hstop : place S (opening :: (u ++ close :: r)) + byteSize (opening :: u) =
        place S (close :: r) := place_append (t := opening :: u) h
    rw [List.cons_append] at hfind
    rw [hfind, upTo?_append hu]
    refine Reading.run_bind (o := some (byteSize (opening :: u))) (g := id)
      (h := fun _ => some (u, place S (close :: r))) rfl ?_
    rintro _ ⟨⟩
    rw [id]
    rw [hstop, place_cons hopening h, Reading.run_lift_bind (slice_place hs),
      Reading.run_lift_bind (text_utf8 u)]
    rfl
  · rw [find?_of_notMem hclose (by simpa [hne.symm] using hmem), upTo?_of_notMem hmem]
    rfl

/-- Whether a character may not stand in an argument although it does not close it. -/
def breaksArgument (c : Char) : Bool :=
  c = '\n' || c = '('

/-- **The argument in parentheses at an offset**, trimmed, with the offset behind it. -/
def readParens (src : Bytes) (i : Nat) : Reading (Bytes × Nat) := do
  guard (src[i]? = some (ascii '('))
  let (argument, close) ← readUpTo ')' src i
  guard (argument.any breaksArgument = false)
  return (utf8 (trim argument), close + 1)

/-- What stands in front of the first closing parenthesis is the argument, if nothing breaks it. -/
theorem parenthesized?_append_cons {u : Text} (hu : ')' ∉ u) (r : Text) :
    parenthesized? ('(' :: (u ++ ')' :: r)) =
      if u.any breaksArgument = false then some (trim u, r) else none := by
  have hends : ∀ c ∈ u, endsArgument c = breaksArgument c := by
    intro c hc
    have : c ≠ ')' := by
      rintro rfl
      exact hu hc
    simp [endsArgument, breaksArgument, this, Bool.or_comm]
  split
  · rename_i hbreaks
    refine parenthesized?_append (List.all_eq_true.2 fun c hc => ?_) r
    rw [hends c hc, Bool.eq_false_iff.2 (List.any_eq_false.1 hbreaks c hc)]
    rfl
  · rename_i hbreaks
    refine Option.eq_none_iff_forall_ne_some.2 ?_
    rintro ⟨a, r'⟩ h
    obtain ⟨v, hv, -, happend⟩ := exists_of_parenthesized? h
    have hclose : ')' ∉ v := fun hmem => absurd (List.all_eq_true.1 hv _ hmem) (by decide)
    have heq := congrArg (List.takeWhile (· ≠ ')')) (List.cons.inj happend).2
    rw [(takeWhile_ne_append hu r).1, (takeWhile_ne_append hclose r').1] at heq
    subst heq
    refine hbreaks (List.any_eq_false.2 fun c hc => ?_)
    have := List.all_eq_true.1 hv c hc
    rw [hends c hc] at this
    simpa using this

/-- An argument, step by step. -/
theorem parenthesized?_cons (s : Text) :
    parenthesized? ('(' :: s) =
      (upTo? ')' s).bind fun p =>
        if p.1.any breaksArgument = false then some (trim p.1, p.2) else none := by
  by_cases hmem : ')' ∈ s
  · obtain ⟨u, r, rfl, hu⟩ := List.eq_append_cons_of_mem hmem
    rw [upTo?_append hu, Option.bind_some, parenthesized?_append_cons hu]
  · rw [upTo?_of_notMem hmem, Option.bind_none]
    refine Option.eq_none_iff_forall_ne_some.2 ?_
    rintro ⟨a, r⟩ h
    obtain ⟨v, -, -, happend⟩ := exists_of_parenthesized? h
    rw [(List.cons.inj happend).2] at hmem
    simp at hmem

/-- **The argument at a place.** -/
theorem readParens_place (h : s <:+ S) :
    (readParens (utf8 S) (place S s)).run =
      .ok ((parenthesized? s).map fun p => (utf8 p.1, place S p.2)) := by
  have hopen : ('(' : Char).toNat < 128 := by decide
  have hclose : (')' : Char).toNat < 128 := by decide
  rw [readParens, Reading.run_guard_bind (getElem?_place_eq_iff hopen h)]
  by_cases hhead : s.head? = some '('
  · rw [if_pos hhead]
    obtain ⟨t, rfl⟩ := List.head?_eq_some_iff.1 hhead
    rw [parenthesized?_cons]
    refine Reading.run_bind_map (readUpTo_place hopen hclose (by decide) h) ?_
    rintro ⟨argument, r⟩ hargument
    have hr : ')' :: r <:+ S := (suffix_of_upTo? hargument).trans ((List.suffix_cons _ t).trans h)
    rw [Reading.run_guard_bind Iff.rfl, place_cons hclose hr]
    split <;> rfl
  · have hnone : parenthesized? s = none := by
      unfold parenthesized?
      split
      · exact absurd rfl hhead
      · rfl
    rw [if_neg hhead, hnone]
    rfl

end Bytewise

end ShaderWeave
