import ShaderWeave.Proofs.Binding.Reading

set_option autoImplicit false

/-!
# Printed declarations

A program declares bindings one after the other, with other text in between. This module has such
declarations as they are written, with what makes them well formed, and programs that are made of them.
Reading a program gives back the declarations that were written.

## Main definitions

* `ShaderWeave.WrittenSpace` — an address space and an access mode as they are written.
* `ShaderWeave.WrittenBinding` — a declaration as it is written.
* `ShaderWeave.Interlude` — a text in front of a declaration.
* `ShaderWeave.WrittenProgram` — interludes and declarations in turn, and a last text.

## Main results

* `ShaderWeave.Declaration.read_written` — a declaration is read as it is written.
* `ShaderWeave.declarations_written` — the declarations of a program are those that were written.
* `ShaderWeave.extractBindings_written` — the bindings of a program are those that were written, one
  inserted after the other.
-/

namespace ShaderWeave

open Text Scan

/-! ### What is written -/

/-- **Whether a text may stand between angle brackets**, alone or behind a comma. -/
def isBracketed (t : Text) : Bool :=
  t ≠ [] && isTrimmed t && !t.elem ',' && !t.elem '>'

/-- **An address space**, and an access mode if there is one. -/
structure WrittenSpace where
  kind : Text
  access : Option Text
  kind_bracketed : isBracketed kind = true := by decide
  access_bracketed : access.all isBracketed = true := by decide

/-- The text of an address space in angle brackets. -/
def WrittenSpace.text (w : WrittenSpace) : Text :=
  '<' :: (w.kind ++ ((w.access.map (',' :: ·)).getD [] ++ ['>']))

/-- **A declaration as it is written**, with blanks between its parts. Without an address space it is
that of a texture or a sampler, and then blanks have to keep the name apart from the keyword. -/
structure WrittenBinding where
  group : UInt32
  binding : UInt32
  space : Option WrittenSpace
  name : Text
  type : Text
  /-- The blanks behind the group. -/
  gap : Text
  /-- The blanks behind the number of the slot. -/
  lead : Text
  /-- The blanks in front of the name. -/
  pad : Text
  /-- The blanks behind the name. -/
  tail : Text
  blank : (gap ++ lead ++ pad ++ tail).all isBlank = true := by decide
  apart : (space.isSome || pad ≠ []) = true := by decide
  name_ne_nil : name ≠ [] := by decide
  name_word : name.all isWordChar = true := by decide
  type_ne_nil : type ≠ [] := by decide
  type_trimmed : isTrimmed type = true := by decide
  type_open : ';' ∉ type := by decide

/-- An attribute with a number. -/
def attributeText (name : String) (n : UInt32) : Text :=
  '@' :: (name.toList ++ '(' :: (Number.decimal n.toNat ++ [')']))

namespace WrittenBinding

/-- **The text of a declaration.** -/
def text (b : WrittenBinding) : Text :=
  attributeText "group" b.group ++ (b.gap ++ (attributeText "binding" b.binding ++ (b.lead ++
    ("var".toList ++ ((b.space.map WrittenSpace.text).getD [] ++ (b.pad ++ (b.name ++ (b.tail ++
      ':' :: (b.type ++ [';'])))))))))

/-- **The binding that is declared**, as seen in the given stages. -/
def declared (b : WrittenBinding) (stages : StageSet) : Binding where
  group := b.group
  binding := b.binding
  kind := .ofList ((b.space.map WrittenSpace.kind).getD Binding.handleKind.toList)
  access := (b.space.bind WrittenSpace.access).map .ofList
  name := .ofList b.name
  type := .ofList b.type
  visibility := stages

end WrittenBinding

/-- **A text in front of a declaration**: its comments are closed, and no `@` stands outside them. -/
structure Interlude where
  text : Text
  unmarked : .live '@' ∉ lexemes text
  closed : CommentsClosed text

/-- **A program with declarations**: interludes with declarations behind them, and a last text without
an `@` outside comments. -/
structure WrittenProgram where
  parts : List (Interlude × WrittenBinding)
  last : Text
  last_unmarked : .live '@' ∉ lexemes last

/-- **The text of a program.** -/
def WrittenProgram.text (p : WrittenProgram) : Text :=
  p.parts.foldr (fun q s => q.1.text ++ (q.2.text ++ s)) p.last

/-! ### Numbers -/

namespace Declaration

/-- A digit is neither a space nor a sign, and may stand in an argument. -/
theorem digit_char (d : Number.Digit) :
    isSpace d.char = false ∧ d.char ≠ '+' ∧ endsArgument d.char = false := by
  revert d
  decide

/-- **The number of a slot is read as it is written.** -/
theorem slotNumber?_decimal (n : UInt32) : slotNumber? (Number.decimal n.toNat) = some n := by
  have hread : Number.readDigits (Number.decimal n.toNat) = (Number.digits n.toNat, []) := by
    have := @Number.readDigits_text (Number.digits n.toNat) [] (by simp)
    rwa [List.append_nil] at this
  obtain ⟨d, ds, hds⟩ := List.exists_cons_of_ne_nil (Number.digits_ne_nil n.toNat)
  have hunsigned : ∀ t, Number.decimal n.toNat ≠ '+' :: t := by
    intro t ht
    rw [Number.decimal, hds] at ht
    exact (digit_char d).2.1 (List.cons.inj ht).1
  have hvalue := Number.ofDigits_digits n.toNat
  rw [hds] at hread hvalue
  rw [slotNumber?, hread]
  · simp only [hvalue, if_pos n.toNat_lt, UInt32.ofNat_toNat]
  · exact hunsigned

/-- Numbers are arguments without spaces. -/
theorem decimal_argument (n : Nat) :
    trim (Number.decimal n) = Number.decimal n ∧
      (Number.decimal n).all (!endsArgument ·) = true := by
  have hchar : ∀ c ∈ Number.decimal n, isSpace c = false ∧ endsArgument c = false := by
    intro c hc
    obtain ⟨d, -, rfl⟩ := List.mem_map.1 hc
    exact ⟨(digit_char d).1, (digit_char d).2.2⟩
  constructor
  · refine trim_eq_self (isTrimmed_iff.2 ⟨fun c hc => ?_, fun c hc => ?_⟩)
    · exact (hchar c (List.mem_of_mem_head? hc)).1
    · exact (hchar c (List.mem_of_getLast? hc)).1
  · exact List.all_eq_true.2 fun c hc => by rw [(hchar c hc).2]; rfl

/-- **An attribute is read as it is written**, behind blanks. -/
theorem readAttribute_written {gap : Text} (hgap : gap.all isBlank = true) (name : String) (n : UInt32)
    (s : Text) : readAttribute name.toList (gap ++ (attributeText name n ++ s)) = some (n, s) := by
  have htext : attributeText name n ++ s =
      '@' :: name.toList ++ '(' :: (Number.decimal n.toNat ++ ')' :: s) := by
    simp [attributeText]
  obtain ⟨htrim, hall⟩ := decimal_argument n.toNat
  have hskip : skipBlanks (gap ++ (attributeText name n ++ s)) =
      '@' :: name.toList ++ '(' :: (Number.decimal n.toNat ++ ')' :: s) := by
    rw [skipBlanks_append hgap, htext, List.cons_append, skipBlanks_cons (by decide)]
  simp only [readAttribute, hskip, after?_append, Option.bind_eq_bind, Option.bind_some,
    skipBlanks_cons (c := '(') (by decide), parenthesized?_append hall, htrim, slotNumber?_decimal]
  rfl

/-! ### The parts of a declaration -/

/-- A text may stand between angle brackets if and only if it is not empty, trimmed, and without commas
and closing brackets. -/
theorem isBracketed_iff {t : Text} :
    isBracketed t = true ↔ t ≠ [] ∧ isTrimmed t = true ∧ ',' ∉ t ∧ '>' ∉ t := by
  simp [isBracketed, and_assoc]

/-- The parts between angle brackets. -/
theorem bracketed_parts (w : WrittenSpace) :
    let inner := w.kind ++ (w.access.map (',' :: ·)).getD []
    '>' ∉ inner ∧ trim (inner.takeWhile (· ≠ ',')) = w.kind ∧
      trim (((inner.dropWhile (· ≠ ',')).drop 1).takeWhile (· ≠ ',')) = w.access.getD [] := by
  obtain ⟨-, htrimmed, hcomma, hclose⟩ := isBracketed_iff.1 w.kind_bracketed
  cases haccess : w.access with
  | none =>
    obtain ⟨htake, hdrop⟩ := takeWhile_ne_of_notMem hcomma
    simp only [Option.map_none, Option.getD_none, List.append_nil, htake, hdrop]
    exact ⟨hclose, trim_eq_self htrimmed, rfl⟩
  | some a =>
    obtain ⟨-, htrimmed', hcomma', hclose'⟩ :=
      isBracketed_iff.1 (by simpa [haccess] using w.access_bracketed)
    obtain ⟨htake, hdrop⟩ := takeWhile_ne_append hcomma a
    simp only [Option.map_some, Option.getD_some, htake, hdrop, List.drop_one, List.tail_cons,
      (takeWhile_ne_of_notMem hcomma').1]
    exact ⟨by simp [hclose, hclose'], trim_eq_self htrimmed, trim_eq_self htrimmed'⟩

/-- **What stands in angle brackets is read as it is written.** -/
theorem readKind_written (w : WrittenSpace) (s : Text) :
    readKind (w.text ++ s) = some (w.kind, w.access, skipBlanks s) := by
  obtain ⟨hclose, hkind, haccess⟩ := bracketed_parts w
  have hne : w.kind ≠ [] := (isBracketed_iff.1 w.kind_bracketed).1
  have htext : w.text ++ s =
      '<' :: ((w.kind ++ (w.access.map (',' :: ·)).getD []) ++ '>' :: s) := by
    simp [WrittenSpace.text]
  obtain ⟨htake, hdrop⟩ := takeWhile_ne_append hclose s
  rw [htext, readKind, hdrop, htake]
  simp only [hkind, haccess, if_neg hne]
  cases ha : w.access with
  | none => rfl
  | some a =>
    have hne' : a ≠ [] :=
      (isBracketed_iff.1 (by simpa [ha] using w.access_bracketed)).1
    rw [Option.getD_some, if_neg hne']

/-- **A type is read as it is written**, up to its semicolon. -/
theorem readType_written {type : Text} (hne : type ≠ []) (htrimmed : isTrimmed type = true)
    (hopen : ';' ∉ type) (s : Text) :
    readType (':' :: (type ++ ';' :: s)) = some (type, s) := by
  obtain ⟨htake, hdrop⟩ := takeWhile_ne_append hopen s
  rw [readType, hdrop, htake]
  simp only [trim_eq_self htrimmed, if_neg hne]

/-! ### A declaration -/

/-- What stands behind the keyword of a declaration, in front of another text. -/
def behindKeyword (b : WrittenBinding) (s : Text) : Text :=
  (b.space.map WrittenSpace.text).getD [] ++ (b.pad ++ (b.name ++ s))

/-- No word goes on behind the keyword. -/
theorem head?_behindKeyword (b : WrittenBinding) (s : Text) :
    (behindKeyword b s).head?.any isWordChar = false := by
  have hapart := b.apart
  rw [behindKeyword]
  cases hspace : b.space with
  | some w => rfl
  | none =>
    have hpad : b.pad ≠ [] := by simpa [hspace] using hapart
    obtain ⟨c, pad, hc⟩ := List.exists_cons_of_ne_nil hpad
    have hblank : isBlank c = true := List.all_eq_true.1 b.blank c (by simp [hc])
    simp [hc, isWordChar_eq_false_of_isBlank hblank]

/-- **The kind of a declaration is read as it is written**, up to the name. -/
theorem readKind_behindKeyword (b : WrittenBinding) (s : Text) :
    readKind (skipBlanks (behindKeyword b s)) =
      some ((b.space.map WrittenSpace.kind).getD Binding.handleKind.toList,
        b.space.bind WrittenSpace.access, b.name ++ s) := by
  have hpad : b.pad.all isBlank = true :=
    List.all_eq_true.2 fun c hc => List.all_eq_true.1 b.blank c (by simp [hc])
  obtain ⟨c, name, hname⟩ := List.exists_cons_of_ne_nil b.name_ne_nil
  have hword : isWordChar c = true := List.all_eq_true.1 b.name_word c (by simp [hname])
  have hskip : skipBlanks (b.pad ++ (b.name ++ s)) = b.name ++ s := by
    rw [skipBlanks_append hpad, hname, List.cons_append,
      skipBlanks_cons (isBlank_eq_false_of_isWordChar hword)]
  rw [behindKeyword]
  cases b.space with
  | some w =>
    have hopen : skipBlanks (w.text ++ (b.pad ++ (b.name ++ s))) = w.text ++ (b.pad ++ (b.name ++ s)) :=
      skipBlanks_cons (by decide) _
    rw [Option.map_some, Option.getD_some, hopen, readKind_written, hskip]
    rfl
  | none =>
    have hangle : ∀ t, b.name ++ s ≠ '<' :: t := by
      intro t ht
      rw [hname] at ht
      rw [(List.cons.inj ht).1] at hword
      exact absurd hword (by decide)
    rw [Option.map_none, Option.getD_none, List.nil_append, hskip, readKind]
    · rfl
    · exact hangle

/-- **A declaration is read as it is written**, whatever follows. -/
theorem read_written (stages : StageSet) (b : WrittenBinding) (s : Text) :
    Declaration.read stages (b.text ++ s) = some (b.declared stages, s) := by
  obtain ⟨⟨⟨hgap, hlead⟩, -⟩, htail⟩ : ((b.gap.all isBlank = true ∧ b.lead.all isBlank = true) ∧
      b.pad.all isBlank = true) ∧ b.tail.all isBlank = true := by
    simpa only [List.all_append, Bool.and_eq_true] using b.blank
  have htext : b.text ++ s = [] ++ (attributeText "group" b.group ++ (b.gap ++
      (attributeText "binding" b.binding ++ (b.lead ++ ("var".toList ++
        behindKeyword b (b.tail ++ ':' :: (b.type ++ ';' :: s))))))) := by
    simp [WrittenBinding.text, behindKeyword]
  generalize hend : b.tail ++ ':' :: (b.type ++ ';' :: s) = r at htext
  have hvar : keyword? "var".toList (skipBlanks (b.lead ++ ("var".toList ++ behindKeyword b r))) =
      some (behindKeyword b r) := by
    rw [skipBlanks_append hlead, show "var".toList = ['v', 'a', 'r'] by decide, List.cons_append,
      skipBlanks_cons (by decide), ← List.cons_append, keyword?,
      word?_append (by decide) (by decide) (head?_behindKeyword b r)]
    rfl
  have hname : word? (b.name ++ r) = some (b.name, r) := by
    refine word?_append b.name_ne_nil b.name_word ?_
    rw [← hend]
    cases htail' : b.tail with
    | nil => rfl
    | cons c tail =>
      have hblank : isBlank c = true := List.all_eq_true.1 htail c (by simp [htail'])
      simp [isWordChar_eq_false_of_isBlank hblank]
  have htype : readType (skipBlanks r) = some (b.type, s) := by
    rw [← hend, skipBlanks_append htail, skipBlanks_cons (by decide)]
    exact readType_written b.type_ne_nil b.type_trimmed b.type_open s
  rw [htext]
  simp only [Declaration.read, @readAttribute_written [] rfl, readAttribute_written hgap, hvar,
    readKind_behindKeyword, hname, htype, Option.bind_eq_bind, Option.bind_some]
  rfl

end Declaration

/-! ### A program -/

/-- **An interlude is passed over** to the declaration behind it, which is read. -/
theorem declarations_interlude (stages : StageSet) (t : Interlude) (b : WrittenBinding) (s : Text) :
    declarations stages (t.text ++ (b.text ++ s)) = b.declared stages :: declarations stages s := by
  obtain ⟨u, hu⟩ : ∃ u, b.text ++ s = '@' :: u := ⟨_, rfl⟩
  have hlex : lexemes (t.text ++ (b.text ++ s)) = lexemes t.text ++ lexemes (b.text ++ s) := by
    rw [hu, lexemes_append_cons t.closed (by decide) (by decide)]
  have hcomment : comment? (b.text ++ s) = none := by
    rw [hu, comment?_cons_eq_none (by decide)]
  have hread : (Declaration.reader stages).read (b.text ++ s) = some (b.declared stages, s) := by
    rw [← Declaration.read_written stages b s, hu]
    rfl
  rw [declarations, items_append_of_unread hlex, items_of_read hcomment hread, declarations]
  intro front c back hc
  refine Declaration.reader_read_eq_none stages ?_ _
  rintro rfl
  exact t.unmarked (by simp [hc])

/-- A text without an `@` outside comments declares nothing. -/
theorem declarations_of_unmarked (stages : StageSet) {s : Text} (h : .live '@' ∉ lexemes s) :
    declarations stages s = [] := by
  have hlex : lexemes s = lexemes s ++ lexemes [] := by rw [lexemes, List.append_nil]
  rw [declarations, items_append_of_unread hlex]
  · simp [items, pieces]
  · intro front c back hc
    refine Declaration.reader_read_eq_none stages ?_ _
    rintro rfl
    exact h (by simp [hc])

/-- **The declarations of a program are those that were written**, in order. -/
theorem declarations_written (stages : StageSet) (p : WrittenProgram) :
    declarations stages p.text = p.parts.map fun q => q.2.declared stages := by
  obtain ⟨parts, last, hlast⟩ := p
  rw [WrittenProgram.text]
  induction parts with
  | nil => exact declarations_of_unmarked stages hlast
  | cons q parts ih => rw [List.foldr_cons, declarations_interlude, ih, List.map_cons]

/-- **The bindings of a program are those that were written**, inserted one after the other as seen in
the stage of the program. -/
theorem extractBindings_written (stage : Option Stage) (p : WrittenProgram) (set : BindingSet) :
    (extractBindings stage p.text set).value =
      p.parts.foldl
        (fun set q => (set.insert (q.2.declared ((stage.map StageSet.single).getD .empty))).2) set := by
  rw [value_extractBindings, declarations_written, BindingSet.insertAll, List.foldl_map]

/-! ### A program with declarations in its comments -/

/-- A comment with a declaration. -/
def lampComment : Interlude where
  text := "/* @group(0) @binding(9) var<uniform> gone: Gone; */\n".toList
  unmarked := by decide +kernel
  closed := by
    have h : (lexemes "/* @group(0) @binding(9) var<uniform> gone: Gone; */\n".toList).filterMap
        Lexeme.commentText? = ["/* @group(0) @binding(9) var<uniform> gone: Gone; */".toList] := by
      decide +kernel
    refine commentsClosed_of_forall fun t ht => ?_
    rw [h, List.mem_singleton] at ht
    exact ⟨.block " @group(0) @binding(9) var<uniform> gone: Gone; ".toList (by decide),
      by rw [ht]; decide⟩

/-- A buffer. -/
def lampBuffer : WrittenBinding where
  group := 0
  binding := 1
  space := some { kind := "storage".toList, access := some "read".toList }
  name := "lamps".toList
  type := "array<vec4<f32>, 8>".toList
  gap := [' ']
  lead := ['\n', '\t']
  pad := [' ']
  tail := []

/-- A texture in the same slot. -/
def lampMap : WrittenBinding where
  group := 0
  binding := 1
  space := none
  name := "map".toList
  type := "texture_2d<f32>".toList
  gap := []
  lead := []
  pad := ['\t']
  tail := [' ']

/-- A program that declares both, each behind a comment. -/
def lampProgram : WrittenProgram where
  parts := [(lampComment, lampBuffer), (lampComment, lampMap)]
  last := "fn main() \x7b\x7d // @group(0)".toList
  last_unmarked := by decide +kernel

/-- The buffer is the binding of the slot, and no other slot has one. -/
theorem extractBindings_written_lamps :
    (extractBindings (some .fragment) lampProgram.text .empty).value.entries =
      [⟨0, 1, "storage", some "read", "lamps", "array<vec4<f32>, 8>", .single .fragment⟩] := by
  rw [extractBindings_written]
  decide +kernel

end ShaderWeave
