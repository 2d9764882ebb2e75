import ShaderWeave.Proofs.Text.Respacing

set_option autoImplicit false

/-!
# Texts with macros

The author of a template writes plain text, comments, and uses of a macro in between. This module
has such texts, put together from their parts, and what becomes of them. Replacing the macros puts the
values of the uses in their places, all at once: the other parts stay as they are, and no part of the
result, neither a value nor what it makes up with the text around it, is searched again.

## Main definitions

* `ShaderWeave.MacroUse` — a use of a macro, with padding around its name.
* `ShaderWeave.MacroPart` — a plain text, a closed comment, or a use.
* `ShaderWeave.MacroText` — a text made of parts.
* `ShaderWeave.MacroText.value` — the text with a value for each use.

## Main results

* `ShaderWeave.MacroForm.replace_use` — a use is replaced by its value, or stays as it is.
* `ShaderWeave.MacroForm.replace_text` — replacing the macros of a text gives its value.
* `ShaderWeave.macros_replaced_at_once` — both kinds of macro, with the values of flags and the
  fields of structs.
-/

namespace ShaderWeave

open Text Scan

/-! ### What an author writes -/

/-- **A plain text for a macro**: neither a comment nor a use of the macro starts in it, whatever
follows. So it ends neither in `/` nor in a proper beginning of what opens the macro. -/
structure MacroForm.PlainText (m : MacroForm) where
  text : Text
  uncommented : isUncommented text = true := by decide
  unopened : isClearOf m.opening text = true := by decide

/-- **Padding** around the name in a use of a macro: spaces and tabs. -/
def isPadding (c : Char) : Bool :=
  c = ' ' || c = '\t'

/-- **A use of a macro** as it is written: a name with padding around it. -/
structure MacroUse where
  before : Text
  name : Text
  behind : Text
  before_padding : before.all isPadding = true := by decide
  name_ne_nil : name ≠ [] := by decide
  name_word : name.all isWordChar = true := by decide
  behind_padding : behind.all isPadding = true := by decide

/-- The argument of a use. -/
def MacroUse.argument (u : MacroUse) : Text :=
  u.before ++ (u.name ++ u.behind)

/-- The text of a use. -/
def MacroUse.text (m : MacroForm) (u : MacroUse) : Text :=
  m.opening ++ (u.argument ++ [m.close])

/-- **A part of a text with macros.** -/
inductive MacroPart (m : MacroForm) where
  | plain (t : m.PlainText)
  | comment (c : ClosedComment)
  | use (u : MacroUse)

/-- **A text with macros**: parts, and at the end nothing, or a comment that runs to the end of the
text. -/
structure MacroText (m : MacroForm) where
  parts : List (MacroPart m)
  last : Text
  last_comment : last = [] ∨ comment? last = some (last, [])

variable {m : MacroForm}

/-- A part with a given text for a use. -/
def MacroPart.value (inserted : MacroUse → Text) : MacroPart m → Text
  | plain t => t.text
  | comment c => c.text
  | use u => inserted u

/-- **The value of a text**: the same parts, with given texts for the uses. -/
def MacroText.value (t : MacroText m) (inserted : MacroUse → Text) : Text :=
  t.parts.flatMap (MacroPart.value inserted) ++ t.last

/-- **The text that is written.** -/
def MacroText.text (t : MacroText m) : Text :=
  t.value (MacroUse.text m)

/-! ### Names and padding -/

/-- Padding is spaces and tabs. -/
theorem isPadding_iff {c : Char} : isPadding c = true ↔ c = ' ' ∨ c = '\t' := by
  simp [isPadding]

/-- Padding is a space, so it goes when an argument is trimmed. -/
theorem isSpace_of_isPadding {c : Char} (h : isPadding c = true) : isSpace c = true := by
  rcases isPadding_iff.1 h with rfl | rfl <;> decide

namespace MacroUse

/-- **Padding does not count**: trimming the argument of a use gives its name. -/
theorem trim_argument (u : MacroUse) : trim u.argument = u.name := by
  have hspace : ∀ c ∈ u.name, isSpace c = false := fun c hc =>
    isSpace_eq_false_of_isWordChar (List.all_eq_true.1 u.name_word c hc)
  have hpadding : ∀ {w : Text}, w.all isPadding = true → w.all isSpace = true := fun hw =>
    List.all_eq_true.2 fun c hc => isSpace_of_isPadding (List.all_eq_true.1 hw c hc)
  refine trim_eq_of_isTrimmed (isTrimmed_iff.2 ⟨fun c hc => ?_, fun c hc => ?_⟩)
    (hpadding u.before_padding) (hpadding u.behind_padding)
  · exact hspace c (List.mem_of_mem_head? hc)
  · exact hspace c (List.mem_of_getLast? hc)

/-- A character of an argument is one of a word or of padding. -/
theorem mem_argument {u : MacroUse} {c : Char} (hc : c ∈ u.argument) :
    isWordChar c = true ∨ isPadding c = true := by
  rcases List.mem_append.1 hc with hc | hc
  · exact .inr (List.all_eq_true.1 u.before_padding c hc)
  rcases List.mem_append.1 hc with hc | hc
  · exact .inl (List.all_eq_true.1 u.name_word c hc)
  · exact .inr (List.all_eq_true.1 u.behind_padding c hc)

end MacroUse

namespace MacroForm

/-- **A form whose uses hold nothing else**: what opens them starts with a character that is not
found again, neither in the opening nor in an argument nor as the closing character; an argument does
not end early; and there is no `/` for a comment. -/
structure IsPlain (m : MacroForm) : Prop where
  first_notMem : m.first ∉ m.more ++ [m.close]
  first_word : isWordChar m.first = false
  first_padding : isPadding m.first = false
  close_word : isWordChar m.close = false
  close_padding : isPadding m.close = false
  slash_notMem : '/' ∉ m.opening ++ [m.close]

/-- Uses of flags hold nothing else. -/
theorem isPlain_flag : flag.IsPlain :=
  ⟨by decide, by decide, by decide, by decide, by decide, by decide⟩

/-- Uses of struct definitions hold nothing else. -/
theorem isPlain_struct : struct.IsPlain :=
  ⟨by decide, by decide, by decide, by decide, by decide, by decide⟩

/-- A character outside words and padding is not in an argument. -/
theorem notMem_argument {c : Char} (hword : isWordChar c = false) (hpadding : isPadding c = false)
    (u : MacroUse) : c ∉ u.argument := fun hc => by
  rcases MacroUse.mem_argument hc with h | h
  · simp [h] at hword
  · simp [h] at hpadding

/-- The argument of a use does not end early. -/
theorem IsPlain.ends_eq_false (hm : m.IsPlain) (u : MacroUse) :
    ∀ c ∈ u.argument, m.ends c = false := by
  intro c hc
  have hclose : c ≠ m.close := fun h =>
    notMem_argument hm.close_word hm.close_padding u (h ▸ hc)
  have hline : c ≠ '\n' := fun h => notMem_argument (by decide) (by decide) u (h ▸ hc)
  simp [ends, hclose, hline]

/-! ### Replacing part by part -/

variable {α : Type} {meaning : Text → Option α} {replacement : α → Text}

/-- A plain text stays as it is, whatever follows. -/
theorem replace_plain_append {t : Text} (huncommented : isUncommented t = true)
    (hunopened : isClearOf m.opening t = true) (s : Text) :
    m.replace meaning replacement (t ++ s) = t ++ m.replace meaning replacement s := by
  induction t with
  | nil => rfl
  | cons c t ih =>
    have hcomment := comment?_append_of_isUncommented huncommented (by simp) s
    have hread : m.read meaning (c :: t ++ s) = none := by
      rw [read, after?_append_of_isClearOf hunopened (by simp) s]
    rw [List.cons_append] at hcomment hread ⊢
    rw [replace_of_unread hcomment hread, ih (isUncommented_of_cons huncommented)
      (isClearOf_of_cons hunopened), List.cons_append]

/-- A use of a macro is read with its argument. -/
theorem read_use (hm : m.IsPlain) (u : MacroUse) (s : Text) :
    m.read meaning (u.text m ++ s) = (meaning u.argument).map fun a => (a, s) := by
  have hargument : ∀ c ∈ u.argument, (!m.ends c) = true := by simpa using hm.ends_eq_false u
  have hclose : m.ends m.close = true := by simp [ends]
  have htext : u.text m ++ s = m.opening ++ (u.argument ++ m.close :: s) := by simp [MacroUse.text]
  rw [htext, read, after?_append]
  simp only [List.takeWhile_append_of_pos hargument, List.dropWhile_append_of_pos hargument]
  simp [hclose]

/-- Behind the first character of a use neither a comment nor another use starts. -/
theorem IsPlain.clear_tail (hm : m.IsPlain) (u : MacroUse) :
    isUncommented (m.more ++ (u.argument ++ [m.close])) = true ∧
      isClearOf m.opening (m.more ++ (u.argument ++ [m.close])) = true := by
  have hslash := hm.slash_notMem
  have hfirst := hm.first_notMem
  have hslash' := notMem_argument (c := '/') (by decide) (by decide) u
  have hfirst' := notMem_argument hm.first_word hm.first_padding u
  constructor
  · exact isUncommented_of_notMem (by simp_all [opening])
  · exact isClearOf_of_notMem (by simp_all)

/-- **A use is replaced by its value** if its argument means something, and stays as it is
otherwise. -/
theorem replace_use (hm : m.IsPlain) (u : MacroUse) (s : Text) :
    m.replace meaning replacement (u.text m ++ s) =
      ((meaning u.argument).map replacement).getD (u.text m) ++
        m.replace meaning replacement s := by
  have hread : m.read meaning (u.text m ++ s) = (meaning u.argument).map fun a => (a, s) :=
    read_use hm u s
  have htext : u.text m ++ s = m.first :: (m.more ++ (u.argument ++ [m.close]) ++ s) := by
    simp [MacroUse.text, opening]
  have hfirst : m.first ≠ '/' := fun h => hm.slash_notMem (by simp [opening, h])
  have hcomment : comment? (u.text m ++ s) = none := by
    rw [htext]
    exact comment?_cons_eq_none hfirst _
  cases hmeaning : meaning u.argument with
  | some a =>
    rw [hmeaning] at hread
    exact replace_of_read hcomment hread
  | none =>
    -- the scan goes on behind the first character, where it finds plain text
    obtain ⟨huncommented, hunopened⟩ := hm.clear_tail u
    rw [hmeaning, Option.map_none] at hread
    rw [htext] at hread hcomment ⊢
    rw [replace_of_unread hcomment hread, replace_plain_append huncommented hunopened]
    simp [MacroUse.text, opening]

/-- Parts are replaced one by one, whatever follows. -/
theorem replace_parts_append (hm : m.IsPlain) (parts : List (MacroPart m)) (s : Text) :
    m.replace meaning replacement (parts.flatMap (MacroPart.value (MacroUse.text m)) ++ s) =
      (parts.flatMap (MacroPart.value fun u =>
        ((meaning u.argument).map replacement).getD (u.text m))) ++
        m.replace meaning replacement s := by
  induction parts with
  | nil => rfl
  | cons p parts ih =>
    rw [List.flatMap_cons, List.flatMap_cons, List.append_assoc, List.append_assoc, ← ih]
    cases p with
    | plain p => exact replace_plain_append p.uncommented p.unopened _
    | comment c => exact replace_of_comment? (comment?_closed c _)
    | use u => exact replace_use hm u _

/-- **Replacing the macros of a text gives its value**, in which a use has the value that its
argument means, or its own text. -/
theorem replace_text (hm : m.IsPlain) (t : MacroText m) :
    m.replace meaning replacement t.text =
      t.value fun u => ((meaning u.argument).map replacement).getD (u.text m) := by
  have hnil : m.replace meaning replacement [] = [] := by simp [replace, pieces]
  have hlast : m.replace meaning replacement t.last = t.last := by
    rcases t.last_comment with h | h
    · rw [h, hnil]
    · rw [replace_of_comment? h, hnil, List.append_nil]
  rw [MacroText.text, MacroText.value, replace_parts_append hm, hlast, MacroText.value]

end MacroForm

/-! ### Flags and structs -/

/-- **What becomes of the use of a flag**: the value of the flag, or the use itself if there is no
such flag. -/
def Flags.inserted (flags : Flags) (u : MacroUse) : Text :=
  match flags.get? (.ofList u.name) with
  | some v => v.display
  | none => u.text .flag

/-- **What becomes of the use of a struct**: its fields, or nothing if there is no such struct. -/
def StructRegistry.inserted (structs : StructRegistry) (u : MacroUse) : Text :=
  match structs.get? (.ofList u.name) with
  | some s => s.fieldList
  | none => []

/-- **Macros are replaced at once.** Of a text with uses of flags each use becomes the value of its
flag, and one that names no flag stays; of a text with uses of structs each use becomes the fields of
its struct, or nothing. Plain text and comments stay as they are, macros in comments included, and the
inserted texts stand in the result as they are, whatever they hold. -/
theorem macros_replaced_at_once :
    (∀ (t : MacroText .flag) (flags : Flags),
        substituteFlags flags t.text = t.value flags.inserted) ∧
      ∀ (t : MacroText .struct) (structs : StructRegistry),
        expandStructs structs t.text = t.value structs.inserted := by
  constructor
  · intro t flags
    rw [substituteFlags, MacroForm.replace_text MacroForm.isPlain_flag]
    congr 1
    funext u
    rw [u.trim_argument, Flags.inserted]
    cases flags.get? (.ofList u.name) <;> rfl
  · intro t structs
    rw [expandStructs, MacroForm.replace_text MacroForm.isPlain_struct]
    congr 1
    funext u
    simp only [structName, u.trim_argument, Option.map_some, Option.getD_some,
      StructRegistry.inserted]
    cases structs.get? (.ofList u.name) <;> rfl

/-! ### Values with macros in them -/

/-- A flag whose value holds a use of itself and, with the text behind it, opens a comment. -/
def mirrorFlags : Flags :=
  Table.empty.insert "GLOW" (.text "$\x7bGLOW\x7d/")

/-- Plain text, a use of the flag in front of a `*`, a comment with a use, and a use of another flag. -/
def mirrorText : MacroText .flag where
  parts :=
    [.plain { text := "let a = ".toList }, .use { before := [' '], name := "GLOW".toList, behind := ['\t'] },
      .plain { text := "* 2; ".toList }, .comment (.block " $\x7bGLOW\x7d ".toList (by decide)),
      .use { before := [], name := "DIM".toList, behind := [] }]
  last := "// $\x7bGLOW\x7d".toList
  last_comment := .inr (by decide)

/-- A struct with a field whose type looks like a use of the struct. -/
def mirrorStructs : StructRegistry :=
  StructRegistry.add Table.empty ⟨"Glow", [⟨"tint", "vec3<f32>"⟩, ⟨"next", "#struct(Glow)"⟩]⟩

/-- A use of the struct between braces, a comment with a use, and a use of another struct. -/
def mirrorFields : MacroText .struct where
  parts :=
    [.plain { text := "struct Lamp \x7b".toList },
      .use { before := ['\t'], name := "Glow".toList, behind := [' '] },
      .plain { text := "\x7d".toList }, .comment (.line " #struct(Glow)".toList (by decide)),
      .use { before := [], name := "Dim".toList, behind := [] }]
  last := []
  last_comment := .inl rfl

/-- The inserted texts are searched neither for macros nor for comments, and comments stay. -/
theorem macros_replaced_at_once_mirror :
    mirrorText.text =
        "let a = $\x7b GLOW\t\x7d* 2; /* $\x7bGLOW\x7d */$\x7bDIM\x7d// $\x7bGLOW\x7d".toList ∧
      substituteFlags mirrorFlags mirrorText.text =
        "let a = $\x7bGLOW\x7d/* 2; /* $\x7bGLOW\x7d */$\x7bDIM\x7d// $\x7bGLOW\x7d".toList ∧
      mirrorFields.text =
        "struct Lamp \x7b#struct(\tGlow )\x7d// #struct(Glow)\n#struct(Dim)".toList ∧
      expandStructs mirrorStructs mirrorFields.text =
        "struct Lamp \x7btint: vec3<f32>,\nnext: #struct(Glow),\x7d// #struct(Glow)\n".toList := by
  refine ⟨by decide, ?_, by decide, ?_⟩
  · rw [macros_replaced_at_once.1]
    decide
  · rw [macros_replaced_at_once.2]
    decide

end ShaderWeave
