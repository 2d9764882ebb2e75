import ShaderWeave.Scan.Comment

set_option autoImplicit false

/-!
# Indentation

Composed programs are put together from parts with indentations of their own. Formatting gives every
line the indentation of its depth of braces. It also thins out blank lines: runs become one, and
none stays at the start, behind a line that ends in an opening brace, or before a line that starts
with a closing one. Braces inside comments do not count.

## Main definitions

* `ShaderWeave.Indentation.countBraces` — the braces of a line outside comments.
* `ShaderWeave.Indentation.State` — what is carried from line to line.
* `ShaderWeave.Indentation.step` — one line formatted.
* `ShaderWeave.format` — a text formatted.
-/

namespace ShaderWeave

open Text Scan

namespace Indentation

/-- **The braces of a line** that lie outside comments. -/
structure BraceCount where
  opens : Nat
  closes : Nat
  /-- The closing braces that come before anything else. -/
  leadingCloses : Nat
  deriving DecidableEq, Repr

/-- No braces. -/
def BraceCount.zero : BraceCount :=
  ⟨0, 0, 0⟩

/-- **The braces of a line**, added to those that were counted, together with whether a block comment is
open behind it. What is carried along is whether a block comment is open, and whether anything was
seen but comments, blanks and closing braces. -/
def countBraces : (inComment seenCode : Bool) → BraceCount → Text → BraceCount × Bool
  | inComment, _, n, [] => (n, inComment)
  | true, seenCode, n, '*' :: '/' :: s => countBraces false seenCode n s
  | true, seenCode, n, _ :: s => countBraces true seenCode n s
  | false, _, n, '/' :: '/' :: _ => (n, false)
  | false, seenCode, n, '/' :: '*' :: s => countBraces true seenCode n s
  | false, seenCode, n, c :: s =>
    if c = '{' then countBraces false true { n with opens := n.opens + 1 } s
    else if c = '}' then
      countBraces false seenCode
        { n with
          closes := n.closes + 1
          leadingCloses := if seenCode then n.leadingCloses else n.leadingCloses + 1 } s
    else countBraces false (seenCode || !isBlank c) n s

/-- **What is carried from line to line.** -/
structure State where
  /-- The braces that are open. -/
  depth : Nat
  /-- Whether a block comment is open. -/
  inComment : Bool
  /-- Whether there was a blank line since the last line that was written. -/
  blankSeen : Bool
  /-- Whether a blank line would stand at the start of the text or of a scope. -/
  atEdge : Bool
  deriving DecidableEq, Repr

/-- The state before the first line. -/
def State.start : State :=
  ⟨0, false, false, true⟩

/-- **One line formatted**, with its newline and with the blank line before it if there is one, and
the state behind it. Spaces at the ends of the line are dropped. A line that starts inside a block
comment has the indentation of the depth that the comment was opened at. -/
def step (width : Nat) (st : State) (line : Text) : Text × State :=
  let t := trim line
  if t = [] then ([], { st with blankSeen := true })
  else
    let counted := countBraces st.inComment false .zero t
    let braces := counted.1
    let gap : Text := if st.blankSeen && !st.atEdge && braces.leadingCloses = 0 then ['\n'] else []
    let level := if st.inComment then st.depth else st.depth - braces.leadingCloses
    (gap ++ List.replicate (level * width) ' ' ++ t ++ ['\n'],
      { depth := st.depth + braces.opens - braces.closes
        inComment := counted.2
        blankSeen := false
        atEdge := t.getLast? = some '{' })

/-- Lines formatted one after the other. -/
def run (width : Nat) : State → List Text → Text
  | _, [] => []
  | st, l :: ls => (step width st l).1 ++ run width (step width st l).2 ls

end Indentation

/-- **A text formatted**, with `width` spaces for each level of braces. -/
def format (width : Nat) (s : Text) : Text :=
  Indentation.run width .start (lines s)

end ShaderWeave
