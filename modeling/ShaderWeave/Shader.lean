import ShaderWeave.Context

set_option autoImplicit false

/-!
# Shaders

A shader is a configuration with its programs. Its flags can change; the programs are then built
anew, or found in the cache of the context. If that fails the shader stays as it was.

## Main definitions

* `ShaderWeave.Shader` — a shader.
* `ShaderWeave.Shader.create` — the shader of a configuration.
* `ShaderWeave.Shader.setFlag`, `ShaderWeave.Shader.setFlags` — a shader with changed flags.
-/

namespace ShaderWeave

/-- **A configuration with its programs.** -/
structure Shader where
  config : Config
  cached : Cached

namespace Shader

/-- The programs of a shader. -/
def program (s : Shader) : Program :=
  s.cached.program

/-- The flags of a shader. -/
def flags (s : Shader) : Flags :=
  s.config.flags

/-- **The shader of a configuration.** -/
def create (ctx : Context) (config : Config) : Noted (Except BuildError Shader × Context) := do
  let (result, ctx) ← ctx.getOrBuild config
  return (result.map fun c => ⟨config, c⟩, ctx)

/-- A shader with another configuration, and the error if that cannot be built. -/
def rebuild (s : Shader) (ctx : Context) (config : Config) :
    Noted (Except BuildError Unit × Shader × Context) := do
  let (result, ctx) ← ctx.getOrBuild config
  match result with
  | .ok c => return (.ok (), ⟨config, c⟩, ctx)
  | .error e => return (.error e, s, ctx)

/-- **A shader with one flag set.** -/
def setFlag (s : Shader) (ctx : Context) (name : String) (value : FlagValue) :
    Noted (Except BuildError Unit × Shader × Context) :=
  s.rebuild ctx { s.config with flags := s.config.flags.insert name value }

/-- **A shader with flags set** to those of another collection. -/
def setFlags (s : Shader) (ctx : Context) (flags : Flags) :
    Noted (Except BuildError Unit × Shader × Context) :=
  s.rebuild ctx { s.config with flags := s.config.flags.merge flags }

end Shader

end ShaderWeave
