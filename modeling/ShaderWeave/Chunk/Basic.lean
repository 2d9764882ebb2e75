import ShaderWeave.Chunk.Content
import ShaderWeave.Json.Basic
import ShaderWeave.Notice

set_option autoImplicit false

/-!
# Chunks

A **chunk** is a named fragment of a program, written as one template. It has code for some stages,
each with an order rule, and a text that is shared by all of them.

## Main definitions

* `ShaderWeave.Chunk` — a chunk.
* `ShaderWeave.Chunk.ofTemplate` — the chunk of a name and a template.
* `ShaderWeave.Chunk.code`, `orderRule`, `shared`, `defects` — what the template holds.
* `ShaderWeave.Chunk.read`, `ShaderWeave.Chunk.readAll` — read templates and note their defects.

## Main results

* `ShaderWeave.Chunk.ext_template` — a chunk is its name and its template.
-/

namespace ShaderWeave

/-- **A chunk**: a name, a template and the content of that template. -/
structure Chunk where
  name : String
  template : String
  content : ChunkContent
  /-- The content is that of the template. -/
  content_eq : content = ChunkContent.parse template.toList

namespace Chunk

/-- **The chunk of a name and a template.** -/
def ofTemplate (name template : String) : Chunk :=
  ⟨name, template, .parse template.toList, rfl⟩

/-- A chunk is its name and its template. -/
theorem ext_template {a b : Chunk} (hn : a.name = b.name) (ht : a.template = b.template) :
    a = b := by
  obtain ⟨na, ta, ca, ha⟩ := a
  obtain ⟨nb, tb, cb, hb⟩ := b
  simp only at hn ht
  subst hn ht ha hb
  rfl

/-- The code of a stage, empty where the chunk has none. -/
def code (c : Chunk) (stage : Stage) : Text :=
  ChunkContent.codeOf c.content.blocks stage

/-- The order rule of a stage. -/
def orderRule (c : Chunk) (stage : Stage) : Option OrderRule :=
  (ChunkContent.block? c.content.blocks stage).bind StageBlock.order

/-- The text that is shared by the stages. -/
def shared (c : Chunk) : Text :=
  c.content.shared

/-- What is wrong with the template, in order. -/
def defects (c : Chunk) : List ChunkDefect :=
  c.content.defects

/-- The stages that a chunk has code for. -/
def stages (c : Chunk) : StageSet :=
  .ofPred fun s => c.code s ≠ []

/-- Whether a chunk has no code for any stage, so that all it gives is the shared text. -/
def isDeclarationOnly (c : Chunk) : Bool :=
  c.stages.isEmpty

/-- The notices of a chunk: one for each defect. -/
def notices (c : Chunk) : List Notice :=
  c.defects.map (.chunkDefect c.name)

/-- **Reads a template**: the chunk, with a notice for each defect. -/
def read (name template : String) : Noted Chunk :=
  ⟨ofTemplate name template, (ofTemplate name template).notices⟩

/-- **Reads templates**, in order. -/
def readAll (sources : List (String × String)) : Noted (List Chunk) :=
  sources.mapM fun p => read p.1 p.2

/-- **A chunk as JSON**: its name and its template. All else follows from them. -/
def toJson (c : Chunk) : Json :=
  .record [("name", .ofString c.name), ("template", .ofString c.template)]

end Chunk

end ShaderWeave
