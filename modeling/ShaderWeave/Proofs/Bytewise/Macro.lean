import ShaderWeave.Macro
import ShaderWeave.Proofs.Bytewise.Scan
import ShaderWeave.Proofs.Scan.Pieces

set_option autoImplicit false

/-!
# Macros in bytes

The replacement of macros, for a program that holds the bytes of a text. A macro that is opened is closed
by the first byte that may end its argument, if that is the closing one.

## Main definitions

* `ShaderWeave.Bytewise.readMacro` — the use of a macro at an offset.
* `ShaderWeave.Bytewise.replaceMacros` — a text with the uses of a macro replaced.
* `ShaderWeave.Bytewise.expandStructs`, `ShaderWeave.Bytewise.substituteFlags` — the two macros.

## Main results

* `ShaderWeave.Bytewise.replaceMacros_utf8` — nothing goes wrong in the replacement, for macros with ASCII
  delimiters.
-/

namespace ShaderWeave

namespace Bytewise

open Text Bytes Scan

variable {α : Type} {S s r : Text} {m : MacroForm} {meaning : Text → Option α} {replacement : α → Text}

/-- The offset of the first byte of a class, from an offset on. -/
def position (class_ : UInt8 → Bool) (src : Bytes) (i : Nat) : Reading Nat := do
  let rest ← liftM (bytesFrom src i)
  let offset ← OptionT.mk (pure (rest.findIdx? class_))
  return i + offset

/-- **The use of a macro at an offset**: what replaces it, with the offset behind it. -/
def readMacro (m : MacroForm) (meaning : Text → Option Text) (src : Bytes) (i : Nat) :
    Reading (Bytes × Nat) := do
  let rest ← liftM (bytesFrom src i)
  guard ((utf8 m.opening).isPrefixOf rest)
  let start := i + (utf8 m.opening).length
  let stop ← position (ofClass m.ends) src start
  let b ← liftM (byteAt src stop)
  guard (b = ascii m.close)
  let argument ← liftM (slice src start stop)
  let argument ← liftM (text argument)
  let replacement ← OptionT.mk (pure (meaning argument))
  return (utf8 replacement, stop + 1)

/-- A replacement for the use of a macro at an offset. -/
def findMacro (m : MacroForm) (meaning : Text → Option Text) (src : Bytes) (i : Nat) (_ : UInt8)
    (_ : Unit) : Guarded (Unit × Option (Bytes × Nat)) := do
  let use ← (readMacro m meaning src i).run
  return ((), use)

/-- **A text with the uses of a macro replaced.** -/
def replaceMacros (m : MacroForm) (meaning : Text → Option Text) (src : Bytes) : Guarded Bytes := do
  let (out, _) ← rewrite src (findMacro m meaning src) ()
  return out

/-- A text with the fields of structs. -/
def expandStructs (structs : StructRegistry) (src : Bytes) : Guarded Bytes :=
  replaceMacros .struct (fun argument => (structName argument).map fun name =>
    ((structs.get? name).map StructDef.fieldList).getD []) src

/-- A text with the values of flags. -/
def substituteFlags (flags : Flags) (src : Bytes) : Guarded Bytes :=
  replaceMacros .flag (fun key => (flags.get? (.ofList (trim key))).map FlagValue.display) src

/-! ### Uses at a place -/

/-- **A macro with ASCII delimiters.** -/
structure AsciiForm (m : MacroForm) : Prop where
  opening : m.opening.IsAscii
  close : m.close.toNat < 128

/-- The delimiters of flags are ASCII. -/
theorem AsciiForm.flag : AsciiForm .flag :=
  ⟨by decide, by decide⟩

/-- The delimiters of struct definitions are ASCII. -/
theorem AsciiForm.struct : AsciiForm .struct :=
  ⟨by decide, by decide⟩

/-- What ends the argument of a macro is an ASCII character. -/
theorem AsciiForm.lt_of_ends (h : AsciiForm m) {c : Char} (hc : m.ends c = true) : c.toNat < 128 := by
  have hclose := h.close
  rw [MacroForm.ends, Bool.or_eq_true, decide_eq_true_iff, decide_eq_true_iff] at hc
  rcases hc with rfl | rfl
  · exact hclose
  · decide

/-- The bytes that end an argument go together with the characters that do. -/
theorem AsciiForm.agrees_ends (h : AsciiForm m) : Agrees (ofClass m.ends) m.ends := by
  refine agrees_ofClass false fun c hc => Bool.eq_false_iff.2 fun hends => ?_
  have := h.lt_of_ends hends
  omega

/-- The first byte of a class is found behind those that are not of it. -/
theorem findIdx?_eq (class_ : UInt8 → Bool) (bs : Bytes) :
    bs.findIdx? class_ =
      if bs.dropWhile (!class_ ·) = [] then none else some (bs.takeWhile (!class_ ·)).length := by
  induction bs with
  | nil => rfl
  | cons b bs ih =>
    rw [List.findIdx?_cons, List.dropWhile_cons, List.takeWhile_cons]
    cases class_ b with
    | true => simp
    | false =>
      simp only [Bool.not_false, if_true, Bool.false_eq_true, if_false, ih, List.length_cons]
      split <;> rfl

/-- The end of a text that starts with its first character of a class. -/
def fromFirst? (class_ : Char → Bool) (s : Text) : Option Text :=
  if s.dropWhile (!class_ ·) = [] then none else some (s.dropWhile (!class_ ·))

/-- What is left from the first character of a class on is an end of the text. -/
theorem suffix_of_fromFirst? {class_ : Char → Bool} (h : fromFirst? class_ s = some r) : r <:+ s := by
  rw [fromFirst?] at h
  split at h
  · cases h
  · exact Option.some.inj h ▸ List.dropWhile_suffix _

/-- The first character of a class is in the class. -/
theorem exists_of_fromFirst? {class_ : Char → Bool} (h : fromFirst? class_ s = some r) :
    ∃ c t, r = c :: t ∧ s.dropWhile (!class_ ·) = c :: t ∧ class_ c = true := by
  rw [fromFirst?] at h
  split at h
  · cases h
  · obtain rfl := Option.some.inj h
    obtain ⟨c, t, hct⟩ := List.exists_cons_of_ne_nil ‹_›
    refine ⟨c, t, hct, hct, ?_⟩
    have := List.head?_dropWhile_not (!class_ ·) s
    rw [hct] at this
    simpa using this

/-- The first byte of a class is the first one of the first character of the class. -/
theorem position_place {bytes : UInt8 → Bool} {chars : Char → Bool} (hclass : Agrees bytes chars)
    (h : s <:+ S) :
    (position bytes (utf8 S) (place S s)).run = .ok ((fromFirst? chars s).map (place S)) := by
  have hnot : Agrees (!bytes ·) (!chars ·) := fun c b hb => congrArg not (hclass c b hb)
  have hplace := place_append (S := S) (t := s.takeWhile (!chars ·)) (r := s.dropWhile (!chars ·))
    (by rwa [List.takeWhile_append_dropWhile])
  rw [List.takeWhile_append_dropWhile] at hplace
  rw [position, Reading.run_lift_bind (bytesFrom_place h), findIdx?_eq, dropWhile_utf8 hnot,
    takeWhile_utf8 hnot, fromFirst?]
  simp only [utf8_eq_nil_iff, length_utf8]
  split
  · rfl
  · rw [Option.map_some, ← hplace]
    rfl

/-- The use of a macro, step by step. -/
theorem macroRead_eq (m : MacroForm) (meaning : Text → Option α) (s : Text) :
    m.read meaning s =
      (after? m.opening s).bind fun r => (fromFirst? m.ends r).bind fun t =>
        if t.head? = some m.close then
          (meaning (r.takeWhile (!m.ends ·))).map fun a => (a, t.tail)
        else none := by
  rw [MacroForm.read]
  cases after? m.opening s with
  | none => rfl
  | some r =>
    simp only [Option.bind_some, fromFirst?]
    split
    · rename_i c t ht
      simp [ht]
    · rename_i hnil
      simp [hnil]

/-- **The use of a macro at a place.** -/
theorem readMacro_place (meaning : Text → Option α) (replacement : α → Text) (hm : AsciiForm m)
    (h : s <:+ S) :
    (readMacro m (fun a => (meaning a).map replacement) (utf8 S) (place S s)).run =
      .ok ((m.read meaning s).map fun p => (utf8 (replacement p.1), place S p.2)) := by
  have hstart := isPrefixOf_utf8 m.opening hm.opening s
  rw [readMacro, macroRead_eq, Reading.run_lift_bind (bytesFrom_place h),
    Reading.run_guard_bind (q := (after? m.opening s).isSome) (by rw [hstart])]
  cases hafter : after? m.opening s with
  | none => rfl
  | some r =>
    have hr : r <:+ S := (after?_suffix hafter).trans h
    have hsplit : r.takeWhile (!m.ends ·) ++ r.dropWhile (!m.ends ·) = r :=
      List.takeWhile_append_dropWhile
    rw [if_pos (by rfl), length_utf8, place_after? h hafter, Option.bind_some]
    refine Reading.run_bind_map (position_place hm.agrees_ends hr) ?_
    intro t hfirst
    obtain ⟨d, u, rfl, hd, hends⟩ := exists_of_fromFirst? hfirst
    have hascii : d.toNat < 128 := hm.lt_of_ends hends
    have ht : d :: u <:+ S := (suffix_of_fromFirst? hfirst).trans hr
    rw [hd] at hsplit
    have hslice := slice_place (S := S) (t := r.takeWhile (!m.ends ·)) (r := d :: u) (by rwa [hsplit])
    rw [hsplit] at hslice
    rw [Reading.run_lift_bind (byteAt_place hascii ht),
      Reading.run_guard_bind (q := (d :: u).head? = some m.close)
        (by rw [ascii_inj hm.close hascii, List.head?_cons, Option.some.injEq])]
    split
    · rw [Reading.run_lift_bind hslice, Reading.run_lift_bind (text_utf8 _), place_cons hascii ht]
      cases meaning (r.takeWhile (!m.ends ·)) <;> rfl
    · rfl

/-- **A text with the uses of a macro replaced.** Nothing goes wrong in the replacement. -/
theorem replaceMacros_utf8 (hm : AsciiForm m) (meaning : Text → Option α) (replacement : α → Text)
    (S : Text) :
    replaceMacros m (fun a => (meaning a).map replacement) (utf8 S) =
      .ok (utf8 (m.replace meaning replacement S)) := by
  have hrewrites : Rewrites S (findMacro m (fun a => (meaning a).map replacement) (utf8 S))
      (m.replace meaning replacement) (fun state _ => state) := by
    refine ⟨⟨?_, fun _ => rfl⟩, ?_, ?_, ?_, ?_⟩
    · rw [MacroForm.replace, pieces_nil]
      rfl
    · -- no use starts with a byte outside ASCII
      intro i b _ hb hhigh
      have hstart := isPrefixOf_drop_of_high m.more (hm.opening _ List.mem_cons_self) hb hhigh
      have hnone : (readMacro m (fun a => (meaning a).map replacement) (utf8 S) i).run = .ok none := by
        rw [readMacro, Reading.run_lift_bind (bytesFrom_of_getElem? hb), Reading.run_guard_bind Iff.rfl,
          if_neg (by rw [MacroForm.opening, hstart]; simp)]
      rw [findMacro, hnone]
      rfl
    · -- nor with such a character
      intro c t hc hcomment
      have hread : m.read meaning (c :: t) = none := by
        rw [macroRead_eq, MacroForm.opening, after?, if_neg]
        · rfl
        · rintro rfl
          have := hm.opening m.first List.mem_cons_self
          omega
      refine ⟨?_, fun _ => rfl⟩
      rw [MacroForm.replace, pieces_of_unread (R := m.reader meaning) hcomment hread]
      rfl
    · -- comments are kept
      intro t u r hcomment
      refine ⟨?_, fun _ => rfl⟩
      rw [MacroForm.replace, pieces_of_comment? hcomment]
      rfl
    · -- an ASCII character, at which a use is read or not
      intro c t _ hc hs hcomment
      have hplace := readMacro_place meaning replacement hm hs
      cases hread : m.read meaning (c :: t) with
      | none =>
        rw [hread] at hplace
        refine .inl ⟨(), ?_, ?_, rfl⟩
        · rw [findMacro, hplace]
          rfl
        · rw [MacroForm.replace, pieces_of_unread hcomment hread]
          rfl
      | some p =>
        obtain ⟨a, r⟩ := p
        rw [hread] at hplace
        obtain ⟨_, _, heq, hr⟩ := (m.reader meaning).read_suffix hread
        obtain rfl := (List.cons.inj heq).2
        refine .inr ⟨replacement a, r, (), hr, ?_, ?_, rfl⟩
        · rw [findMacro, hplace]
          rfl
        · rw [MacroForm.replace, pieces_of_read (R := m.reader meaning) hcomment hread]
          rfl
  rw [replaceMacros, hrewrites.rewrite_eq]
  rfl

/-- Struct definitions are put into bytes as they are put into the text. -/
theorem expandStructs_utf8 (structs : StructRegistry) (s : Text) :
    expandStructs structs (utf8 s) = .ok (utf8 (ShaderWeave.expandStructs structs s)) :=
  replaceMacros_utf8 .struct _ _ s

/-- Flags are put into bytes as they are put into the text. -/
theorem substituteFlags_utf8 (flags : Flags) (s : Text) :
    substituteFlags flags (utf8 s) = .ok (utf8 (ShaderWeave.substituteFlags flags s)) :=
  replaceMacros_utf8 .flag _ _ s

end Bytewise

end ShaderWeave
