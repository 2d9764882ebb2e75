import ShaderWeave.Chunk.Basic
import ShaderWeave.Digest.Xxh3
import ShaderWeave.Flag

set_option autoImplicit false

/-!
# Configurations

A configuration is all that a material supplies for its shader: vertex attributes, varyings between
the stages, outputs, chunks, flags, and entry templates if it has its own.

## Main definitions

* `ShaderWeave.Config` — a configuration.
* `ShaderWeave.Config.toJson` — the configuration as JSON, with flags in the order of their names.
* `ShaderWeave.Config.digest` — the digest of that text, which identifies the configuration.
-/

namespace ShaderWeave

/-- **A vertex attribute.** Its location is its place in the list unless one is given. -/
structure Attribute where
  name : String
  type : String
  location : Option UInt32
  deriving DecidableEq, Repr

/-- **A value handed from the vertex to the fragment stage.** -/
structure Varying where
  name : String
  type : String
  /-- The argument of the interpolation attribute, if it has one. -/
  interpolation : Option String
  deriving DecidableEq, Repr

/-- **An output of the fragment stage.** Its location is its place in the list unless one is given. -/
structure Output where
  location : Option UInt32
  name : String
  type : String
  deriving DecidableEq, Repr

/-- **A chunk that a configuration asks for**, by name or brought along. -/
inductive ChunkRef where
  | named (name : String)
  | inline (chunk : Chunk)

namespace ChunkRef

/-- The name of the chunk. -/
def name : ChunkRef → String
  | .named n => n
  | .inline c => c.name

/-- The chunk, if it is brought along. -/
def inline? : ChunkRef → Option Chunk
  | .named _ => none
  | .inline c => some c

/-- A reference as JSON: the name, or the chunk. -/
def toJson : ChunkRef → Json
  | .named n => .ofString n
  | .inline c => c.toJson

end ChunkRef

/-- **A configuration.** -/
structure Config where
  name : String
  attributes : List Attribute
  varyings : List Varying
  outputs : List Output
  chunks : List ChunkRef
  flags : Flags
  /-- The entry template of the vertex stage, if it is not the usual one. -/
  vertexTemplate : Option String
  /-- The entry template of the fragment stage, if it is not the usual one. -/
  fragmentTemplate : Option String

namespace Config

/-- The names of the chunks, in order. -/
def chunkNames (c : Config) : List String :=
  c.chunks.map ChunkRef.name

/-- The chunks that are brought along, in order. -/
def inlineChunks (c : Config) : List Chunk :=
  c.chunks.filterMap ChunkRef.inline?

/-- The entry template of a stage, if the configuration has one. -/
def entryTemplate? (c : Config) : Stage → Option String
  | .vertex => c.vertexTemplate
  | .fragment => c.fragmentTemplate
  | .compute => none

/-! ### JSON -/

/-- A location as JSON. -/
def locationJson (location : Option UInt32) : Json :=
  .ofOption (fun n => .ofInt n.toNat) location

/-- An attribute as JSON. -/
def attributeJson (a : Attribute) : Json :=
  .record [("name", .ofString a.name), ("ty", .ofString a.type),
    ("location", locationJson a.location)]

/-- A varying as JSON. -/
def varyingJson (v : Varying) : Json :=
  .record [("name", .ofString v.name), ("ty", .ofString v.type),
    ("interpolation", .ofOption .ofString v.interpolation)]

/-- An output as JSON. -/
def outputJson (o : Output) : Json :=
  .record [("location", locationJson o.location), ("name", .ofString o.name),
    ("ty", .ofString o.type)]

/-- **A configuration as JSON.** -/
def toJson (c : Config) : Json :=
  .record [("name", .ofString c.name), ("attributes", .array (c.attributes.map attributeJson)),
    ("varyings", .array (c.varyings.map varyingJson)),
    ("outputs", .array (c.outputs.map outputJson)), ("chunks", .array (c.chunks.map ChunkRef.toJson)),
    ("flags", c.flags.toJson), ("vertex_template", .ofOption .ofString c.vertexTemplate),
    ("fragment_template", .ofOption .ofString c.fragmentTemplate)]

/-- **The digest of a configuration**, taken over its JSON text. -/
def digest (c : Config) : Digest :=
  .ofText c.toJson.toText

end Config

end ShaderWeave
