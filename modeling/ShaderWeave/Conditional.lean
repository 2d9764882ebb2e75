import ShaderWeave.Flag
import ShaderWeave.Notice
import ShaderWeave.Scan.Brace
import ShaderWeave.Scan.Token

set_option autoImplicit false

/-!
# Conditionals

A template may hold conditionals

    #if FLAG { ... } else { ... }

with an optional alternative. The body that a set of flags chooses takes the place of the
conditional, and the braces around it are dropped. Bodies are found by matching braces, so they may
hold scopes of the program and further conditionals. What only looks like a conditional stays as it
is.

A text is first read into a `Template`, in which conditionals are nodes; expansion and the notices
that go with it are then functions on templates.

## Main definitions

* `ShaderWeave.Conditional.read` — the conditional at the start of a text.
* `ShaderWeave.Template` — a text with its conditionals.
* `ShaderWeave.Template.parse` — the template that a text denotes.
* `ShaderWeave.Template.expand`, `ShaderWeave.Template.notices` — its expansion for given flags.
* `ShaderWeave.expandConditionals` — the expansion of a text.

## Main results

* `ShaderWeave.Conditional.length_lt_of_read` — both bodies and the rest are shorter than the text.
-/

namespace ShaderWeave

open Text Scan

/-- **A conditional**: a flag, the body for when it is set to true, and the body for when it is not,
which is empty where there is no alternative. -/
structure Conditional where
  flag : String
  thenBody : Text
  elseBody : Text
  /-- Whether an alternative is opened but never closed; it is no part of the conditional. -/
  elseUnclosed : Bool

namespace Conditional

/-- What keeps a text that starts like a conditional from being one. -/
inductive Defect where
  | flagMissing
  | blockMissing (flag : String)
  | blockUnclosed (flag : String)

/-- The notice of a defect, given the place of the conditional in its text. -/
def Defect.notice (offset : Nat) : Defect → Notice
  | .flagMissing => .flagNameMissing offset
  | .blockMissing flag => .blockMissing flag
  | .blockUnclosed flag => .blockUnclosed flag

/-- **The alternative at the start of a text**: the word `else` and a block. It comes with what
follows it; the outer `none` says that there is no alternative, and the inner one that its block is
never closed. -/
def readElse (s : Text) : Option (Option (Text × Text)) :=
  match after? "else".toList (skipBlanks s) with
  | none => none
  | some r =>
    if r.head?.any isWordChar then none
    else match skipBlanks r with
      | '{' :: t => some (block? ('{' :: t))
      | _ => none

/-- **The conditional at the start of a text**, with what follows it, or what is wrong with it. There
is none unless `#if` and a blank come first. -/
def read (s : Text) : Option (Except Defect (Conditional × Text)) :=
  match after? "#if".toList s with
  | none => none
  | some r =>
    if r.head?.any isBlank then
      match word? (skipBlanks r) with
      | none => some (.error .flagMissing)
      | some (flag, r) =>
        match skipBlanks r with
        | '{' :: t =>
          match block? ('{' :: t) with
          | none => some (.error (.blockUnclosed (.ofList flag)))
          | some (body, r) =>
            match readElse r with
            | none => some (.ok (⟨.ofList flag, body, [], false⟩, r))
            | some none => some (.ok (⟨.ofList flag, body, [], true⟩, r))
            | some (some (alt, r)) => some (.ok (⟨.ofList flag, body, alt, false⟩, r))
        | _ => some (.error (.blockMissing (.ofList flag)))
    else none

/-- An alternative and what follows it are shorter than the text. -/
theorem length_lt_of_readElse {s alt r : Text} (h : readElse s = some (some (alt, r))) :
    alt.length + r.length < s.length := by
  unfold readElse at h
  split at h
  · simp at h
  · rename_i r₀ hr₀
    split at h
    · simp at h
    · split at h
      · rename_i t ht
        have hb := block?_eq_append (Option.some.inj h)
        have h₁ := (after?_suffix hr₀).length_le
        have h₂ := (skipBlanks_suffix s).length_le
        have h₃ := (skipBlanks_suffix r₀).length_le
        rw [ht, hb] at h₃
        simp only [List.length_cons, List.length_append] at h₃
        omega
      · simp at h

/-- **Both bodies and the rest are shorter than the text** of the conditional. -/
theorem length_lt_of_read {s r : Text} {c : Conditional} (h : read s = some (.ok (c, r))) :
    c.thenBody.length + c.elseBody.length + r.length < s.length := by
  unfold read at h
  split at h
  · simp at h
  · rename_i r₀ hr₀
    have h₀ := (after?_suffix hr₀).length_le
    split at h
    · split at h
      · simp at h
      · rename_i flag r₁ hw
        have h₁ := (word?_suffix hw).length_le
        have h₁' := (skipBlanks_suffix r₀).length_le
        split at h
        · rename_i t ht
          have h₂ := (skipBlanks_suffix r₁).length_le
          split at h
          · simp at h
          · rename_i body r₂ hb
            rw [ht, block?_eq_append hb] at h₂
            simp only [List.length_cons, List.length_append] at h₂
            split at h
            · simp only [Option.some.injEq, Except.ok.injEq, Prod.mk.injEq] at h
              obtain ⟨rfl, rfl⟩ := h
              simp only [List.length_nil]
              omega
            · simp only [Option.some.injEq, Except.ok.injEq, Prod.mk.injEq] at h
              obtain ⟨rfl, rfl⟩ := h
              simp only [List.length_nil]
              omega
            · rename_i alt r₃ he
              simp only [Option.some.injEq, Except.ok.injEq, Prod.mk.injEq] at h
              obtain ⟨rfl, rfl⟩ := h
              have := length_lt_of_readElse he
              simp only
              omega
        · simp at h
    · simp at h

end Conditional

/-- **A template**: a text in which conditionals have been found. -/
inductive Template where
  /-- The end of the text. -/
  | done
  /-- A piece of text that is no conditional. -/
  | text (t : Text) (rest : Template)
  /-- Something to tell about what follows. -/
  | notice (n : Notice) (rest : Template)
  /-- A conditional with its two bodies. -/
  | conditional (flag : String) (thenPart elsePart rest : Template)

namespace Template

/-- **The template that a text denotes.** Comments are stepped over. Places are counted in bytes from
the start of a text that has `size` of them and ends in the one given. -/
def parseFrom (size : Nat) : Text → Template
  | [] => .done
  | c :: s =>
    match _ : comment? (c :: s) with
    | some (t, r) => .text t (parseFrom size r)
    | none =>
      match _ : Conditional.read (c :: s) with
      | none => .text [c] (parseFrom size s)
      | some (.error d) =>
        .notice (d.notice (size - byteSize (c :: s))) (.text [c] (parseFrom size s))
      | some (.ok (b, r)) =>
        let node := .conditional b.flag (parseFrom (byteSize b.thenBody) b.thenBody)
          (parseFrom (byteSize b.elseBody) b.elseBody) (parseFrom size r)
        if b.elseUnclosed then .notice (.elseUnclosed b.flag) node else node
termination_by s => s.length
decreasing_by
  · exact length_lt_of_comment? ‹_›
  · simp
  · simp
  · have := Conditional.length_lt_of_read ‹_›
    omega
  · have := Conditional.length_lt_of_read ‹_›
    omega
  · have := Conditional.length_lt_of_read ‹_›
    omega

/-- The template that a text denotes. -/
def parse (s : Text) : Template :=
  parseFrom (byteSize s) s

/-- **The expansion of a template**: each conditional gives way to the body that the flags choose. -/
def expand (flags : Flags) : Template → Text
  | .done => []
  | .text t rest => t ++ rest.expand flags
  | .notice _ rest => rest.expand flags
  | .conditional flag a b rest =>
    (if flags.isEnabled flag then a.expand flags else b.expand flags) ++ rest.expand flags

/-- What is noticed in the course of an expansion. In a body that is not chosen nothing is. -/
def notices (flags : Flags) : Template → List Notice
  | .done => []
  | .text _ rest => rest.notices flags
  | .notice n rest => n :: rest.notices flags
  | .conditional flag a b rest =>
    (if flags.isEnabled flag then a.notices flags else b.notices flags) ++ rest.notices flags

end Template

/-- **The expansion of a text**: its conditionals give way to the bodies that the flags choose. -/
def expandConditionals (flags : Flags) (s : Text) : Text :=
  (Template.parse s).expand flags

/-- The expansion of a text with what is noticed on the way. -/
def expandNoting (flags : Flags) (s : Text) : Noted Text :=
  ⟨expandConditionals flags s, (Template.parse s).notices flags⟩

end ShaderWeave
