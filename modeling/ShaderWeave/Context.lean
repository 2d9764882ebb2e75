import ShaderWeave.Chunk.Builtin
import ShaderWeave.Program

set_option autoImplicit false

/-!
# Contexts

A context holds registered chunks and structs, the settings, and the programs that have been built.
Programs are kept under the digest of their configuration and are never built twice, whatever is
registered in between, until the cache is cleared. A build that fails leaves no trace.

## Main definitions

* `ShaderWeave.Context` — a context.
* `ShaderWeave.Context.getOrBuild` — the programs of a configuration.
-/

namespace ShaderWeave

/-- **A program in the cache**, with a number that no other one of the context has. -/
structure Cached where
  serial : Nat
  program : Program

/-- **A context.** -/
structure Context where
  library : Library
  structs : StructRegistry
  settings : Settings
  /-- The programs in the cache, the oldest one first. -/
  cache : List Cached
  /-- How many programs have been built. -/
  built : Nat

namespace Context

/-- The context with given chunks, structs and settings, and with nothing built. -/
def ofParts (library : Library) (structs : StructRegistry) (settings : Settings) : Context :=
  ⟨library, structs, settings, [], 0⟩

/-- The context without chunks and structs. -/
def empty (settings : Settings) : Context :=
  ofParts Table.empty Table.empty settings

/-- The context with the built-in chunks and structs. -/
def withBuiltin (settings : Settings) : Noted Context := do
  let library ← Library.registerBuiltin Table.empty
  return ofParts library StructRegistry.builtin settings

/-! ### Registration -/

/-- Reads a template and registers the chunk. -/
def registerChunk (ctx : Context) (name template : String) : Noted Context := do
  let library ← ctx.library.addTemplate name template
  return { ctx with library := library }

/-- Reads all templates, and then registers the chunks, in order. -/
def registerChunks (ctx : Context) (sources : List (String × String)) : Noted Context := do
  let library ← ctx.library.addTemplates sources
  return { ctx with library := library }

/-- Removes a chunk. -/
def removeChunk (ctx : Context) (name : String) : Context :=
  { ctx with library := ctx.library.erase name }

/-- Registers a struct. -/
def registerStruct (ctx : Context) (s : StructDef) : Context :=
  { ctx with structs := ctx.structs.add s }

/-! ### Building -/

/-- What builds draw on. -/
def builder (ctx : Context) : Builder :=
  ⟨ctx.library, ctx.structs, ctx.settings⟩

/-- The program in the cache for a digest. -/
def cached? (ctx : Context) (digest : Digest) : Option Cached :=
  ctx.cache.find? (·.program.digest = digest)

/-- The context without cached programs. -/
def clearCache (ctx : Context) : Context :=
  { ctx with cache := [] }

/-- **The programs of a configuration**, from the cache or built now, and the context with them in the
cache. -/
def getOrBuild (ctx : Context) (config : Config) : Noted (Except BuildError Cached × Context) := do
  let digest := config.digest
  match ctx.cached? digest with
  | some c => do
    Logged.note (.cacheHit config.name digest)
    return (.ok c, ctx)
  | none => do
    Logged.note (.cacheMiss config.name digest)
    match ← ctx.builder.build config with
    | .error e => return (.error e, ctx)
    | .ok program => do
      let c : Cached := ⟨ctx.built, program⟩
      return (.ok c, { ctx with cache := ctx.cache ++ [c], built := ctx.built + 1 })

end Context

end ShaderWeave
