import ShaderWeave.Binding.Basic
import ShaderWeave.Number.Digit
import ShaderWeave.Scan.Piece
import ShaderWeave.Scan.Token

set_option autoImplicit false

/-!
# Declarations of bindings

Programs declare bindings in one of the forms

    @group(0) @binding(1) var<storage, read> lights: array<Light>;
    @group(0) @binding(2) var map: texture_2d<f32>;

This module reads the declarations of a program.

## Main definitions

* `ShaderWeave.Declaration.read` — the declaration at the start of a text.
* `ShaderWeave.Declaration.reader` — the reader of declarations.
* `ShaderWeave.extractBindings` — a set of bindings with the declarations of a program.
-/

namespace ShaderWeave

open Text Scan

namespace Declaration

/-- **A number of a group or of a slot**: decimal digits, which a plus sign may precede, of
a number that fits 32 bits. -/
def slotNumber? (s : Text) : Option UInt32 :=
  let s := match s with
    | '+' :: t => t
    | t => t
  match Number.readDigits s with
  | ([], _) => none
  | (ds, []) => if Number.ofDigits ds < UInt32.size then some (.ofNat (Number.ofDigits ds)) else none
  | _ => none

/-- The attribute of a name at the start of a text: its number, and what follows it. -/
def readAttribute (name : Text) (s : Text) : Option (UInt32 × Text) := do
  let r ← after? ('@' :: name) (skipBlanks s)
  let (argument, r) ← parenthesized? (skipBlanks r)
  let n ← slotNumber? argument
  return (n, r)

/-- The address space and the access mode in angle brackets at the start of a text. Without brackets
the kind is that of textures and samplers. Behind a second comma nothing counts. -/
def readKind : Text → Option (Text × Option Text × Text)
  | '<' :: s =>
    match s.dropWhile (· ≠ '>') with
    | _ :: r =>
      let inner := s.takeWhile (· ≠ '>')
      let kind := trim (inner.takeWhile (· ≠ ','))
      let access := trim (((inner.dropWhile (· ≠ ',')).drop 1).takeWhile (· ≠ ','))
      if kind = [] then none
      else some (kind, if access = [] then none else some access, skipBlanks r)
    | [] => none
  | s => some (Binding.handleKind.toList, none, s)

/-- The type behind the colon at the start of a text, up to the semicolon. -/
def readType : Text → Option (Text × Text)
  | ':' :: s =>
    match s.dropWhile (· ≠ ';') with
    | _ :: r =>
      let type := trim (s.takeWhile (· ≠ ';'))
      if type = [] then none else some (type, r)
    | [] => none
  | _ => none

/-- **The declaration at the start of a text**, as seen in the given stages, and what follows its
semicolon. -/
def read (stages : StageSet) (s : Text) : Option (Binding × Text) := do
  let (group, r) ← readAttribute "group".toList s
  let (binding, r) ← readAttribute "binding".toList r
  let r ← keyword? "var".toList (skipBlanks r)
  let (kind, access, r) ← readKind (skipBlanks r)
  let (name, r) ← word? r
  let (type, r) ← readType (skipBlanks r)
  return (⟨group, binding, .ofList kind, access.map .ofList, .ofList name, .ofList type, stages⟩, r)

/-! ### What is left is an end of the text -/

/-- An attribute takes its name at least, so what is left is a proper end of the text behind the blanks.
-/
theorem readAttribute_suffix {name s r : Text} {n : UInt32}
    (h : readAttribute name s = some (n, r)) : r <:+ skipBlanks s ∧ r ≠ skipBlanks s := by
  simp only [readAttribute, bind, Option.bind_eq_some_iff, Prod.exists, Option.pure_def,
    Option.some.injEq, Prod.mk.injEq] at h
  obtain ⟨r₁, h₁, a, r₂, h₂, n', _, rfl, rfl⟩ := h
  have hs := ((parenthesized?_suffix h₂).trans (skipBlanks_suffix r₁))
  refine ⟨hs.trans (after?_suffix h₁), fun he => ?_⟩
  have hl := hs.length_le
  cases hb : skipBlanks s with
  | nil => simp [hb, after?] at h₁
  | cons c t =>
    rw [hb, after?] at h₁
    split at h₁
    · have := (after?_suffix h₁).length_le
      rw [he, hb] at hl
      simp only [List.length_cons] at hl
      omega
    · simp at h₁

/-- What is left behind the kind of a variable is an end of the text. -/
theorem readKind_suffix {s kind r : Text} {access : Option Text}
    (h : readKind s = some (kind, access, r)) : r <:+ s := by
  unfold readKind at h
  split at h
  · rename_i s
    split at h
    · rename_i c r₁ hr
      simp only [Option.ite_none_left_eq_some, Option.some.injEq, Prod.mk.injEq] at h
      obtain ⟨_, _, _, rfl⟩ := h
      have := List.dropWhile_suffix (· ≠ '>') (l := s)
      rw [hr] at this
      exact (((skipBlanks_suffix r₁).trans (List.suffix_cons c r₁)).trans this).trans
        (List.suffix_cons _ _)
    · simp at h
  · simp only [Option.some.injEq, Prod.mk.injEq] at h
    exact h.2.2 ▸ List.suffix_refl _

/-- What is left behind a type and its semicolon is an end of the text. -/
theorem readType_suffix {s type r : Text} (h : readType s = some (type, r)) : r <:+ s := by
  unfold readType at h
  split at h
  · rename_i s
    split at h
    · rename_i c r₁ hr
      simp only [Option.ite_none_left_eq_some, Option.some.injEq, Prod.mk.injEq] at h
      obtain ⟨_, _, rfl⟩ := h
      have := List.dropWhile_suffix (· ≠ ';') (l := s)
      rw [hr] at this
      exact ((List.suffix_cons c r₁).trans this).trans (List.suffix_cons _ _)
    · simp at h
  · simp at h

/-- A declaration takes at least one character, so reading on behind it comes to an end. -/
theorem read_suffix {stages : StageSet} {s r : Text} {b : Binding}
    (h : read stages s = some (b, r)) : r <:+ s ∧ r ≠ s := by
  simp only [read, bind, Option.bind_eq_some_iff, Prod.exists, Option.pure_def,
    Option.some.injEq, Prod.mk.injEq] at h
  obtain ⟨g, r₁, h₁, n, r₂, h₂, r₃, h₃, k, a, r₄, h₄, v, r₅, h₅, t, r₆, h₆, _, rfl⟩ := h
  have s₁ := (readAttribute_suffix h₁).1
  have s₂ := (readAttribute_suffix h₂).1.trans (skipBlanks_suffix r₁)
  have s₃ := (keyword?_suffix h₃).trans (skipBlanks_suffix r₂)
  have s₄ := (readKind_suffix h₄).trans (skipBlanks_suffix r₃)
  have s₅ := word?_suffix h₅
  have s₆ := (readType_suffix h₆).trans (skipBlanks_suffix r₅)
  have hall := ((((s₆.trans s₅).trans s₄).trans s₃).trans s₂)
  refine ⟨(hall.trans s₁).trans (skipBlanks_suffix s), fun he => ?_⟩
  have l₁ := hall.length_le
  have l₂ := s₁.length_le
  have l₃ := (skipBlanks_suffix s).length_le
  refine (readAttribute_suffix h₁).2 (s₁.eq_of_length ?_)
  rw [he] at l₁
  omega

/-- **The reader of declarations.** -/
def reader (stages : StageSet) : Reader Binding where
  read
    | '@' :: s => read stages ('@' :: s)
    | _ => none
  read_suffix := by
    intro s a r h
    split at h
    · rename_i t
      refine ⟨'@', t, rfl, ?_⟩
      obtain ⟨hs, hne⟩ := read_suffix h
      rcases List.suffix_cons_iff.1 hs with he | hs
      · exact absurd he hne
      · exact hs
    · simp at h

end Declaration

/-- **The declarations of a program**, as seen in the given stages. -/
def declarations (stages : StageSet) (s : Text) : List Binding :=
  items (Declaration.reader stages) s

/-- **A set of bindings with the declarations of a program**, which is that of a stage if one is
given. -/
def extractBindings (stage : Option Stage) (s : Text) (set : BindingSet) : Noted BindingSet :=
  (declarations ((stage.map StageSet.single).getD .empty) s).foldlM BindingSet.insertNoting set

/-- The declarations of a program are inserted in order. -/
theorem value_extractBindings (stage : Option Stage) (s : Text) (set : BindingSet) :
    (extractBindings stage s set).value =
      set.insertAll (declarations ((stage.map StageSet.single).getD .empty) s) := by
  rw [extractBindings, Logged.value_foldlM]
  rfl

end ShaderWeave
