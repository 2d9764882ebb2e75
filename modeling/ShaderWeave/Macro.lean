import ShaderWeave.Flag
import ShaderWeave.Notice
import ShaderWeave.Scan.Piece
import ShaderWeave.Scan.Token
import ShaderWeave.StructDef

set_option autoImplicit false

/-!
# Macros

Two macros insert text into a program: `${KEY}` the value of a flag, and `#struct(Name)` the fields of
a struct. A macro ends on the line that it starts on. All macros of a text are replaced at once, so
that inserted text is never searched for macros, and those inside comments are left alone.

## Main definitions

* `ShaderWeave.MacroForm` — the delimiters of a macro.
* `ShaderWeave.MacroForm.reader` — the reader of its uses.
* `ShaderWeave.substituteFlags` — a text with the values of flags.
* `ShaderWeave.expandStructs` — a text with the fields of structs.
-/

namespace ShaderWeave

open Text Scan

/-- **The delimiters of a macro**: what opens it, which is not empty, and the character that closes
it. -/
structure MacroForm where
  first : Char
  more : Text
  close : Char
  deriving DecidableEq, Repr

namespace MacroForm

/-- The form `${KEY}`. -/
def flag : MacroForm :=
  ⟨'$', ['{'], '}'⟩

/-- The form `#struct(Name)`. -/
def struct : MacroForm :=
  ⟨'#', "struct(".toList, ')'⟩

/-- What opens a macro. -/
def opening (m : MacroForm) : Text :=
  m.first :: m.more

/-- Whether a character ends the argument of a macro. -/
def ends (m : MacroForm) (c : Char) : Bool :=
  c = m.close || c = '\n'

/-- **The use of a macro at the start of a text** whose argument means something, with that meaning
and what follows the use. -/
def read {α : Type} (m : MacroForm) (meaning : Text → Option α) (s : Text) : Option (α × Text) :=
  match after? m.opening s with
  | none => none
  | some r =>
    match r.dropWhile (!m.ends ·) with
    | c :: t =>
      if c = m.close then (meaning (r.takeWhile (!m.ends ·))).map fun a => (a, t) else none
    | [] => none

/-- **The reader of the uses of a macro** that mean something. -/
def reader {α : Type} (m : MacroForm) (meaning : Text → Option α) : Reader α where
  read := m.read meaning
  read_suffix := by
    intro s a r h
    unfold MacroForm.read at h
    split at h
    · simp at h
    · rename_i r₁ h₁
      split at h
      · rename_i c t ht
        split at h
        · obtain ⟨a', _, he⟩ := Option.map_eq_some_iff.1 h
          simp only [Prod.mk.injEq] at he
          obtain ⟨rfl, rfl⟩ := he
          cases s with
          | nil => simp [opening, after?] at h₁
          | cons d s =>
            refine ⟨d, s, rfl, ?_⟩
            simp only [opening, after?] at h₁
            split at h₁
            · have hs := List.dropWhile_suffix (!m.ends ·) (l := r₁)
              rw [ht] at hs
              exact ((List.suffix_cons c t).trans hs).trans (after?_suffix h₁)
            · simp at h₁
        · simp at h
      · simp at h

/-- A piece of a text in which the uses of a macro are replaced. -/
def replaced {α : Type} (replacement : α → Text) : Piece α → Text
  | .item _ a => replacement a
  | p => p.text

/-- **A text with the uses of a macro replaced.** -/
def replace {α : Type} (m : MacroForm) (meaning : Text → Option α) (replacement : α → Text)
    (s : Text) : Text :=
  (pieces (m.reader meaning) s).flatMap (replaced replacement)

end MacroForm

/-- **A text with the values of flags.** Spaces around a key do not count. A key that is not set stays
as it is. -/
def substituteFlags (flags : Flags) (s : Text) : Text :=
  MacroForm.flag.replace (fun key => flags.get? (.ofList (trim key))) FlagValue.display s

/-- The name of the struct that the argument of a macro denotes. -/
def structName (argument : Text) : Option String :=
  some (.ofList (trim argument))

/-- The names of the structs whose fields a text asks for, in order. -/
def structNames (s : Text) : List String :=
  items (MacroForm.struct.reader structName) s

/-- **A text with the fields of structs.** An unknown struct has no fields. -/
def expandStructs (structs : StructRegistry) (s : Text) : Text :=
  MacroForm.struct.replace structName
    (fun name => ((structs.get? name).map StructDef.fieldList).getD []) s

/-- A text with the fields of structs, with what is noticed on the way. -/
def expandStructsNoting (structs : StructRegistry) (shader : String) (s : Text) : Noted Text :=
  ⟨expandStructs structs s,
    ((structNames s).filter fun n => !structs.contains n).map (.structUnknown shader)⟩

end ShaderWeave
