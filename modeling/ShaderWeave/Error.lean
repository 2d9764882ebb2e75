import ShaderWeave.Chunk.Defect

set_option autoImplicit false

/-!
# Build errors

What stops a build: in a strict build a chunk that is missing or defective, and in any build a
program that shows that a substitution went wrong.

## Main definitions

* `ShaderWeave.BuildError` — an error.
* `ShaderWeave.BuildError.message` — its wording.
-/

namespace ShaderWeave

/-- **An error of a build.** -/
inductive BuildError where
  /-- An included chunk is not registered. -/
  | unresolvedChunk (shader chunk : String)
  /-- An included chunk has a defect, of which this is the first one. -/
  | malformedChunk (chunk : String) (defect : ChunkDefect)
  /-- The program of a stage holds a text that no program should hold. -/
  | verification (shader : String) (stage : Stage) (marker : String) (program : Text)
  deriving DecidableEq

namespace BuildError

/-- **The wording of an error.** -/
def message : BuildError → String
  | .unresolvedChunk shader chunk =>
    "Unresolved chunk '" ++ chunk ++ "' in shader '" ++ shader ++ "'"
  | .malformedChunk chunk defect => "Malformed chunk '" ++ chunk ++ "': " ++ defect.message
  | .verification shader stage marker _ =>
    "Verification failed for " ++ stage.name ++ " stage of '" ++ shader
      ++ "': generated source contains '" ++ marker ++ "'"

/-- The stage that an error belongs to. -/
def stage? : BuildError → Option Stage
  | .verification _ stage _ _ => some stage
  | _ => none

/-- The program that an error is about. -/
def program? : BuildError → Option Text
  | .verification _ _ _ program => some program
  | _ => none

end BuildError

end ShaderWeave
