import ShaderWeave.Binding.Declaration
import ShaderWeave.Chunk.Sequence
import ShaderWeave.Conditional
import ShaderWeave.Include.Scope
import ShaderWeave.Macro
import ShaderWeave.Marker

set_option autoImplicit false

/-!
# Composition

A stage template becomes a program in a fixed order of steps:

1. conditionals are expanded;
2. the chunks that are asked for are added as include directives;
3. the included chunks are collected, their code takes the place of the stage's placeholder, and their
   shared texts come before all else;
4. entry markers are written out;
5. conditionals that came with the chunks are expanded;
6. struct macros and then flag macros are replaced;
7. the bindings that the program declares are added to a set.

Only the third step can fail, and only in a strict composition.

## Main definitions

* `ShaderWeave.Composer` — what is the same for all templates of a shader.
* `ShaderWeave.Composer.assemble` — a template with the chunks that it includes.
* `ShaderWeave.Composer.compose` — the program of a template.
-/

namespace ShaderWeave

open Text

/-- **What is the same for all templates of a shader.** -/
structure Composer where
  scope : Scope
  structs : StructRegistry
  /-- Whether missing and defective chunks are errors. -/
  strict : Bool
  /-- The name of the shader in notices and errors. -/
  shader : String

namespace Composer

/-- The name of a shader that has none. -/
def anonymous : String :=
  "<anonymous>"

/-- The shared text that a chunk adds to a program: without directives and without the spaces around
it, and with an empty line behind it. -/
def declarationText (c : Chunk) : Text :=
  let t := trim (stripIncludes c.shared)
  if t = [] then [] else t ++ ['\n', '\n']

/-- Whether a chunk takes part in the order of a stage. -/
def isRelevant (stage : Stage) (c : Chunk) : Bool :=
  c.code stage ≠ [] || c.isDeclarationOnly

/-- **The code that chunks contribute to a stage**, in the given order. -/
def stageCode (stage : Stage) (chunks : List Chunk) : Text :=
  join ['\n'] (((chunks.map (·.code stage)).filter (· ≠ [])).map stripIncludes)

/-- A text with its placeholders for a stage replaced, wherever they stand. -/
def fillPlaceholder (stage : Stage) (code s : Text) : Text :=
  replaceAll '{' ('{' :: (stage.name.toList ++ ['}', '}'])) code s

/-- **A template with the chunks that it includes.** A template without a stage only gets the shared
texts. -/
def assemble (composer : Composer) (stage : Option Stage) (chunks : List Chunk) (s : Text) :
    Noted Text := do
  let body := stripIncludes s
  let body ← match stage with
    | some stage => do
      let sequence ← Chunk.arrange stage (chunks.filter (isRelevant stage))
      Logged.note (.chunkOrder composer.shader stage (sequence.map Chunk.name))
      pure (fillPlaceholder stage (stageCode stage sequence) body)
    | none => do
      if chunks ≠ [] then Logged.note (.stageMissing composer.shader)
      pure body
  return chunks.flatMap declarationText ++ body

/-- What becomes of a template once its chunks are in place. -/
def finish (composer : Composer) (flags : Flags) (s : Text) : Noted Text := do
  let s ← expandNoting flags (expandEntries s)
  let s ← expandStructsNoting composer.structs composer.shader s
  return substituteFlags flags s

/-- **The program of a template** for given flags, with the named chunks included besides those that
it includes itself, and the set of bindings with those of the program. Where there is an error the set
stays as it is. -/
def compose (composer : Composer) (flags : Flags) (names : List String) (template : Text)
    (bindings : BindingSet) : Noted (Except BuildError Text × BindingSet) := do
  let s ← expandNoting flags template
  let s := insertIncludes names s
  let stage := detectStage s
  match ← composer.scope.collect composer.strict composer.shader s with
  | .error e => return (.error e, bindings)
  | .ok chunks => do
    let s ← composer.assemble stage chunks s
    let s ← composer.finish flags s
    let bindings ← extractBindings stage s bindings
    return (.ok s, bindings)

end Composer

end ShaderWeave
