import ShaderWeave.Scan.Comment

set_option autoImplicit false

/-!
# Brace matching

Blocks of a template are delimited by braces, and braces inside comments do not count. Two kinds of
block occur: `{ ... }`, closed by the brace that matches its opening one, and `{{ ... }}`, closed by
the first `}}` at which the braces opened inside are balanced. A closing brace with nothing to
close leaves the depth at zero.

## Main definitions

* `ShaderWeave.Scan.closeBrace?`, `ShaderWeave.Scan.closeDouble?` — the closing delimiters among
  lexemes.
* `ShaderWeave.Scan.cutAtBrace?`, `ShaderWeave.Scan.cutAtDouble?` — the same along a text, which is
  read no further than to the delimiter.
* `ShaderWeave.Scan.block?`, `ShaderWeave.Scan.doubleBlock?` — the blocks at the start of a text.

## Main results

* `ShaderWeave.Scan.closeBrace?_eq_append`, `ShaderWeave.Scan.closeDouble?_eq_append` — the body,
  the delimiter and the rest make up the lexemes.
* `ShaderWeave.Scan.cutAtBrace?_eq`, `ShaderWeave.Scan.cutAtDouble?_eq` — a cut of a text is that
  of its lexemes.
-/

namespace ShaderWeave

namespace Scan

/-! ### Among lexemes -/

/-- **The matching brace.** Cuts lexemes at the first `}` that closes more than was opened, given
the depth reached so far; the brace itself is in neither part. -/
def closeBrace? : (depth : Nat) → List Lexeme → Option (List Lexeme × List Lexeme)
  | _, [] => none
  | d, .live '{' :: ls => (closeBrace? (d + 1) ls).map fun p => (.live '{' :: p.1, p.2)
  | 0, .live '}' :: ls => some ([], ls)
  | d + 1, .live '}' :: ls => (closeBrace? d ls).map fun p => (.live '}' :: p.1, p.2)
  | d, l :: ls => (closeBrace? d ls).map fun p => (l :: p.1, p.2)

/-- **The closing `}}`.** Cuts lexemes at the first `}}` met at depth zero, given the depth reached
so far; the two braces are in neither part. A single `}` at depth zero is passed over. -/
def closeDouble? : (depth : Nat) → List Lexeme → Option (List Lexeme × List Lexeme)
  | _, [] => none
  | d, .live '{' :: ls => (closeDouble? (d + 1) ls).map fun p => (.live '{' :: p.1, p.2)
  | d + 1, .live '}' :: ls => (closeDouble? d ls).map fun p => (.live '}' :: p.1, p.2)
  | 0, .live '}' :: .live '}' :: ls => some ([], ls)
  | d, l :: ls => (closeDouble? d ls).map fun p => (l :: p.1, p.2)

/-- The lexemes are those before the brace found, the brace, and those behind it. -/
theorem closeBrace?_eq_append {d : Nat} {ls body rest : List Lexeme}
    (h : closeBrace? d ls = some (body, rest)) : ls = body ++ .live '}' :: rest := by
  fun_induction closeBrace? d ls generalizing body rest with
  | case1 => simp at h
  | case2 d ls ih =>
    obtain ⟨⟨b, r⟩, hb, he⟩ := Option.map_eq_some_iff.1 h
    simp only [Prod.mk.injEq] at he
    obtain ⟨rfl, rfl⟩ := he
    simp [ih hb]
  | case3 ls =>
    simp only [Option.some.injEq, Prod.mk.injEq] at h
    obtain ⟨rfl, rfl⟩ := h
    rfl
  | case4 d ls ih =>
    obtain ⟨⟨b, r⟩, hb, he⟩ := Option.map_eq_some_iff.1 h
    simp only [Prod.mk.injEq] at he
    obtain ⟨rfl, rfl⟩ := he
    simp [ih hb]
  | case5 d l ls _ _ _ ih =>
    obtain ⟨⟨b, r⟩, hb, he⟩ := Option.map_eq_some_iff.1 h
    simp only [Prod.mk.injEq] at he
    obtain ⟨rfl, rfl⟩ := he
    simp [ih hb]

/-- The lexemes are those before the closing `\x7d\x7d` found, the two braces, and those behind them. -/
theorem closeDouble?_eq_append {d : Nat} {ls body rest : List Lexeme}
    (h : closeDouble? d ls = some (body, rest)) :
    ls = body ++ .live '}' :: .live '}' :: rest := by
  fun_induction closeDouble? d ls generalizing body rest with
  | case1 => simp at h
  | case2 d ls ih =>
    obtain ⟨⟨b, r⟩, hb, he⟩ := Option.map_eq_some_iff.1 h
    simp only [Prod.mk.injEq] at he
    obtain ⟨rfl, rfl⟩ := he
    simp [ih hb]
  | case3 d ls ih =>
    obtain ⟨⟨b, r⟩, hb, he⟩ := Option.map_eq_some_iff.1 h
    simp only [Prod.mk.injEq] at he
    obtain ⟨rfl, rfl⟩ := he
    simp [ih hb]
  | case4 ls =>
    simp only [Option.some.injEq, Prod.mk.injEq] at h
    obtain ⟨rfl, rfl⟩ := h
    rfl
  | case5 d l ls _ _ _ ih =>
    obtain ⟨⟨b, r⟩, hb, he⟩ := Option.map_eq_some_iff.1 h
    simp only [Prod.mk.injEq] at he
    obtain ⟨rfl, rfl⟩ := he
    simp [ih hb]

/-! ### Along a text -/

/-- **The cut at the matching brace**: the text before and behind the first `}` outside comments that
closes more than was opened, given the depth reached so far. Nothing behind the brace is looked at. -/
def cutAtBrace? (depth : Nat) : Text → Option (Text × Text)
  | [] => none
  | c :: s =>
    match _ : comment? (c :: s) with
    | some (t, r) => (cutAtBrace? depth r).map fun p => (t ++ p.1, p.2)
    | none =>
      if c = '{' then (cutAtBrace? (depth + 1) s).map fun p => (c :: p.1, p.2)
      else if c = '}' then
        match depth with
        | 0 => some ([], s)
        | d + 1 => (cutAtBrace? d s).map fun p => (c :: p.1, p.2)
      else (cutAtBrace? depth s).map fun p => (c :: p.1, p.2)
termination_by s => s.length
decreasing_by
  · exact length_lt_of_comment? ‹_›
  all_goals simp

/-- **The cut at the closing `}}`**: the text before and behind the first `}}` outside comments that
is met at depth zero, given the depth reached so far. -/
def cutAtDouble? (depth : Nat) : Text → Option (Text × Text)
  | [] => none
  | c :: s =>
    match _ : comment? (c :: s) with
    | some (t, r) => (cutAtDouble? depth r).map fun p => (t ++ p.1, p.2)
    | none =>
      if c = '{' then (cutAtDouble? (depth + 1) s).map fun p => (c :: p.1, p.2)
      else if c = '}' then
        match depth with
        | 0 =>
          if s.head? = some '}' then some ([], s.tail)
          else (cutAtDouble? 0 s).map fun p => (c :: p.1, p.2)
        | d + 1 => (cutAtDouble? d s).map fun p => (c :: p.1, p.2)
      else (cutAtDouble? depth s).map fun p => (c :: p.1, p.2)
termination_by s => s.length
decreasing_by
  · exact length_lt_of_comment? ‹_›
  all_goals simp

/-- Two parts of a text, made of parts of its lexemes. -/
def sources (p : List Lexeme × List Lexeme) : Text × Text :=
  (source p.1, source p.2)

/-- **The cut at the matching brace is the one that the lexemes have.** -/
theorem cutAtBrace?_eq (d : Nat) (s : Text) :
    cutAtBrace? d s = (closeBrace? d (lexemes s)).map sources := by
  fun_induction cutAtBrace? d s with
  | case1 => simp [lexemes, closeBrace?]
  | case2 d c s t r h ih =>
    simp [lexemes_of_comment? h, ih, closeBrace?, sources, Function.comp_def, Lexeme.text]
  | case3 d s h ih =>
    simp [lexemes_of_live h, ih, closeBrace?, sources, Function.comp_def, Lexeme.text]
  | case4 s h =>
    simp [lexemes_of_live h, closeBrace?, sources, source_lexemes]
  | case5 s d h _ ih =>
    simp [lexemes_of_live h, ih, closeBrace?, sources, Function.comp_def, Lexeme.text]
  | case6 d c s h h₁ h₂ ih =>
    rw [lexemes_of_live h, closeBrace?]
    · simp [ih, sources, Function.comp_def, Lexeme.text]
    all_goals simp_all

/-- **The cut at the closing `}}` is the one that the lexemes have.** -/
theorem cutAtDouble?_eq (d : Nat) (s : Text) :
    cutAtDouble? d s = (closeDouble? d (lexemes s)).map sources := by
  fun_induction cutAtDouble? d s with
  | case1 => simp [lexemes, closeDouble?]
  | case2 d c s t r h ih =>
    simp [lexemes_of_comment? h, ih, closeDouble?, sources, Function.comp_def, Lexeme.text]
  | case3 d s h ih =>
    simp [lexemes_of_live h, ih, closeDouble?, sources, Function.comp_def, Lexeme.text]
  | case4 s hs h _ =>
    obtain ⟨r, rfl⟩ : ∃ r, s = '}' :: r := by cases s <;> simp_all
    have hr : comment? ('}' :: r) = none := by simp [comment?]
    simp [lexemes_of_live h, lexemes_of_live hr, closeDouble?, sources, source_lexemes]
  | case5 s hs h _ ih =>
    rw [lexemes_of_live h, closeDouble?]
    · simp [ih, sources, Function.comp_def, Lexeme.text]
    · simp
    · simp
    · intro ls _ _ hls
      have := congrArg source hls
      rw [source_lexemes] at this
      simp [this, Lexeme.text] at hs
  | case6 s d h _ ih =>
    simp [lexemes_of_live h, ih, closeDouble?, sources, Function.comp_def, Lexeme.text]
  | case7 d c s h h₁ h₂ ih =>
    rw [lexemes_of_live h, closeDouble?]
    · simp [ih, sources, Function.comp_def, Lexeme.text]
    all_goals simp_all

/-! ### At the start of a text -/

/-- **The block `{ ... }` at the start of a text**: its body, and what follows its closing brace. -/
def block? : Text → Option (Text × Text)
  | '{' :: s => cutAtBrace? 0 s
  | _ => none

/-- **The block `{{ ... }}` at the start of a text**: its body if the block is closed, and what
follows the closing braces. The outer `none` says that the text does not start with `{{`, the inner
one that the block is never closed. -/
def doubleBlock? : Text → Option (Option (Text × Text))
  | '{' :: '{' :: s => some (cutAtDouble? 0 s)
  | _ => none

/-- A block, its braces and the rest make up the text. -/
theorem block?_eq_append {s body rest : Text} (h : block? s = some (body, rest)) :
    s = '{' :: body ++ '}' :: rest := by
  unfold block? at h
  split at h
  · rename_i s
    rw [cutAtBrace?_eq] at h
    obtain ⟨⟨b, r⟩, hb, he⟩ := Option.map_eq_some_iff.1 h
    simp only [sources, Prod.mk.injEq] at he
    obtain ⟨rfl, rfl⟩ := he
    have := congrArg source (closeBrace?_eq_append hb)
    rw [source_lexemes] at this
    simp [this, Lexeme.text]
  · simp at h

/-- A double block, its braces and the rest make up the text. -/
theorem doubleBlock?_eq_append {s body rest : Text}
    (h : doubleBlock? s = some (some (body, rest))) :
    s = '{' :: '{' :: body ++ '}' :: '}' :: rest := by
  unfold doubleBlock? at h
  split at h
  · rename_i s
    rw [cutAtDouble?_eq] at h
    obtain ⟨⟨b, r⟩, hb, he⟩ := Option.map_eq_some_iff.1 (Option.some.inj h)
    simp only [sources, Prod.mk.injEq] at he
    obtain ⟨rfl, rfl⟩ := he
    have := congrArg source (closeDouble?_eq_append hb)
    rw [source_lexemes] at this
    simp [this, Lexeme.text]
  · simp at h

end Scan

end ShaderWeave
