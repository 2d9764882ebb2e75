import ShaderWeave.Chunk.Defect
import ShaderWeave.Digest.Basic
import ShaderWeave.Logged
import ShaderWeave.Text.Quoted

set_option autoImplicit false

/-!
# Notices

What is worth telling while shaders are built, and yet no reason to stop. Every notice has a level;
whoever reads the log chooses the level from which on notices are of interest.

## Main definitions

* `ShaderWeave.Notice` — a notice.
* `ShaderWeave.Notice.level`, `ShaderWeave.Notice.message` — its level and its wording.
* `ShaderWeave.Noted` — a result with a log of notices.
-/

namespace ShaderWeave

/-- **The level of a notice**, from the most severe one down. -/
inductive Level where
  | warn
  | debug
  | trace
  deriving DecidableEq, Repr

namespace Level

/-- The name of a level. -/
def name : Level → String
  | .warn => "warn"
  | .debug => "debug"
  | .trace => "trace"

/-- The rank of a level: the more severe, the lower. -/
def rank : Level → Nat
  | .warn => 0
  | .debug => 1
  | .trace => 2

end Level

/-- **A notice.** -/
inductive Notice where
  /-- A conditional, so many bytes into its text, names no flag. -/
  | flagNameMissing (offset : Nat)
  /-- No block follows the flag of a conditional. -/
  | blockMissing (flag : String)
  /-- The block of a conditional is never closed. -/
  | blockUnclosed (flag : String)
  /-- The alternative of a conditional is never closed. -/
  | elseUnclosed (flag : String)
  /-- A chunk template has a defect. -/
  | chunkDefect (chunk : String) (defect : ChunkDefect)
  /-- A chunk is to stand beside one that is not there. -/
  | orderTargetMissing (chunk target : String) (stage : Stage)
  /-- An included chunk is not registered. -/
  | chunkSkipped (shader chunk : String)
  /-- The order in which chunks contribute to a stage. -/
  | chunkOrder (shader : String) (stage : Stage) (chunks : List String)
  /-- A template belongs to no stage. -/
  | stageMissing (shader : String)
  /-- The fields of an unknown struct are asked for. -/
  | structUnknown (shader name : String)
  /-- A second declaration of a slot differs from the first one. -/
  | bindingShadowed (group binding : UInt32) (kept rejected : String)
  /-- A chunk takes the place of another one of its name. -/
  | chunkReplaced (name : String)
  /-- The built-in chunks have been registered. -/
  | builtinRegistered (count : Nat)
  /-- The text of a finished stage. -/
  | stageFinished (shader : String) (stage : Stage) (text : String)
  /-- A configuration has been built before. -/
  | cacheHit (shader : String) (digest : Digest)
  /-- A configuration has to be built. -/
  | cacheMiss (shader : String) (digest : Digest)

namespace Notice

/-- The level of a notice. -/
def level : Notice → Level
  | .flagNameMissing _ | .blockMissing _ | .blockUnclosed _ | .elseUnclosed _ => .warn
  | .chunkDefect .. | .chunkSkipped .. | .structUnknown .. => .warn
  | .chunkOrder .. => .trace
  | _ => .debug

/-- **The wording of a notice.** -/
def message : Notice → String
  | .flagNameMissing offset =>
    "`#if` without a flag name at byte " ++ toString offset ++ "; left as is"
  | .blockMissing flag => "`#if " ++ flag ++ "` is not followed by a block; left as is"
  | .blockUnclosed flag => "`#if " ++ flag ++ "` block is never closed; left as is"
  | .elseUnclosed flag => "`else` block of `#if " ++ flag ++ "` is never closed; ignored"
  | .chunkDefect chunk defect => "Chunk '" ++ chunk ++ "': " ++ defect.message
  | .orderTargetMissing chunk target stage =>
    "Chunk '" ++ chunk ++ "' orders against missing '" ++ target ++ "' in " ++ stage.name
      ++ " stage; appending"
  | .chunkSkipped shader chunk =>
    "Shader '" ++ shader ++ "': chunk '" ++ chunk ++ "' is not registered; skipped"
  | .chunkOrder shader stage chunks =>
    "Shader '" ++ shader ++ "' " ++ stage.name ++ " chunk order: " ++ Text.quoteList chunks
  | .stageMissing shader =>
    "Shader '" ++ shader
      ++ "': no stage marker found; only shared declarations are included"
  | .structUnknown shader name =>
    "Shader '" ++ shader ++ "': unknown struct '" ++ name ++ "' in #struct()"
  | .bindingShadowed group binding kept rejected =>
    "Binding (" ++ toString group ++ ", " ++ toString binding ++ ") '" ++ kept
      ++ "' shadows later declaration '" ++ rejected ++ "'"
  | .chunkReplaced name => "Shader chunk '" ++ name ++ "' replaced"
  | .builtinRegistered count =>
    "Registered " ++ toString count ++ " built-in shader chunks"
  | .stageFinished shader stage text =>
    "================= Generated " ++ stage.name ++ " stage of '" ++ shader
      ++ "' =================\n" ++ text
  | .cacheHit shader digest => "Shader cache hit: '" ++ shader ++ "' (" ++ digest.hex ++ ")"
  | .cacheMiss shader digest =>
    "Shader cache miss: '" ++ shader ++ "' (" ++ digest.hex ++ "), building"

end Notice

/-- **A result with a log of notices.** -/
abbrev Noted (α : Type) := Logged Notice α

end ShaderWeave
