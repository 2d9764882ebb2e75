import ShaderWeave.Stage

set_option autoImplicit false

/-!
# Defects of chunks

A chunk template that is not well formed is still read: what cannot be understood stays in the text
that is shared by all stages, and a **defect** records it. Only a strict build turns defects into
errors.

## Main definitions

* `ShaderWeave.ChunkDefect` — what is wrong with a chunk template.
* `ShaderWeave.ChunkDefect.message` — its wording.
-/

namespace ShaderWeave

/-- **A defect of a chunk template.** -/
inductive ChunkDefect where
  /-- A stage block is opened, `offset` bytes into the template, and never closed. -/
  | unterminatedBlock (stage : Stage) (offset : Nat)
  /-- The argument of a stage block is no order rule. -/
  | unknownOrderRule (stage : Stage) (rule : String)
  /-- A stage that has code already is given a second block. The later block wins. -/
  | duplicateBlock (stage : Stage)
  deriving DecidableEq, Repr

namespace ChunkDefect

/-- The stage that a defect concerns. -/
def stage : ChunkDefect → Stage
  | .unterminatedBlock s _ => s
  | .unknownOrderRule s _ => s
  | .duplicateBlock s => s

/-- The wording of a defect. -/
def message : ChunkDefect → String
  | .unterminatedBlock s offset =>
    "unterminated @" ++ s.name ++ " block at byte " ++ toString offset
  | .unknownOrderRule s rule => "unknown order rule '" ++ rule ++ "' on @" ++ s.name ++ " block"
  | .duplicateBlock s => "duplicate @" ++ s.name ++ " block"

end ChunkDefect

end ShaderWeave
