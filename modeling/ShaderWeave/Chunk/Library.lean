import ShaderWeave.Chunk.Basic
import ShaderWeave.Table

set_option autoImplicit false

/-!
# The chunk library

A library holds registered chunks by name. The last chunk registered under a name counts.

## Main definitions

* `ShaderWeave.Library` — a library.
* `ShaderWeave.Library.add`, `ShaderWeave.Library.addAll` — register chunks.
-/

namespace ShaderWeave

/-- **A chunk library**: chunks by their names. -/
abbrev Library := Table Chunk

namespace Library

/-- The chunk of a name. -/
def find? (lib : Library) (name : String) : Option Chunk :=
  lib.get? name

/-- **Registers a chunk** under its name. -/
def add (lib : Library) (c : Chunk) : Noted Library := do
  if (lib.get? c.name).isSome then Logged.note (.chunkReplaced c.name)
  return lib.insert c.name c

/-- **Registers chunks**, in order. -/
def addAll (lib : Library) (cs : List Chunk) : Noted Library :=
  cs.foldlM add lib

/-- Reads a template and registers the chunk. -/
def addTemplate (lib : Library) (name template : String) : Noted Library := do
  let c ← Chunk.read name template
  lib.add c

/-- Reads all templates, and then registers the chunks, in order. -/
def addTemplates (lib : Library) (sources : List (String × String)) : Noted Library := do
  let cs ← Chunk.readAll sources
  lib.addAll cs

end Library

end ShaderWeave
