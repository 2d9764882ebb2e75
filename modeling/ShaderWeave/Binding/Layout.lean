import ShaderWeave.Binding.Basic
import ShaderWeave.Scan.Token

set_option autoImplicit false

/-!
# Layouts of binding groups

The layout of a group tells, for each of its slots, the stages that see it and what kind of resource
it holds. Uniform and storage buffers, samplers and sampled textures have a layout; everything else
that a program can declare in a slot has none.

## Main definitions

* `ShaderWeave.ResourceType` — the kind of resource in a slot.
* `ShaderWeave.Binding.resourceType?` — the kind of resource that a binding declares.
* `ShaderWeave.BindingSet.layout` — the layout of a group.
-/

namespace ShaderWeave

open Text

/-- What is read from a texture. -/
inductive SampleType where
  | float
  | depth
  | sint
  | uint
  deriving DecidableEq, Repr

/-- The dimension of a texture. -/
inductive Dimension where
  | line
  | plane
  | planes
  | space
  | cube
  | cubes
  deriving DecidableEq, Repr

namespace Dimension

/-- Every dimension. -/
def all : List Dimension :=
  [.line, .plane, .planes, .space, .cube, .cubes]

/-- The name of a dimension in texture types. -/
def name : Dimension → String
  | .line => "1d"
  | .plane => "2d"
  | .planes => "2d_array"
  | .space => "3d"
  | .cube => "cube"
  | .cubes => "cube_array"

/-- The dimension of a name. -/
def ofName? (name : Text) : Option Dimension :=
  all.find? (·.name.toList = name)

end Dimension

/-- **The kind of resource in a slot.** -/
inductive ResourceType where
  | uniformBuffer
  | storageBuffer (readOnly : Bool)
  | sampler (comparison : Bool)
  | texture (sample : SampleType) (dimension : Dimension) (multisampled : Bool)
  deriving DecidableEq, Repr

namespace ResourceType

/-- What is read from a texture of a scalar type. -/
def sampleOf? (scalar : Text) : Option SampleType :=
  if scalar = "f32".toList then some .float
  else if scalar = "i32".toList then some .sint
  else if scalar = "u32".toList then some .uint
  else none

/-- The texture of a dimension, which the mark of multisampling may precede. -/
def textureOf? (sample : SampleType) (base : Text) : Option ResourceType :=
  match after? "multisampled_".toList base with
  | some base => (Dimension.ofName? base).map fun d => .texture sample d true
  | none => (Dimension.ofName? base).map fun d => .texture sample d false

/-- The texture type behind its first word: a dimension and a scalar type in angle brackets. -/
def sampledTexture? (s : Text) : Option ResourceType :=
  match s.dropWhile (· ≠ '<') with
  | _ :: r =>
    match (beforeLast? '>' r).bind sampleOf? with
    | some sample => textureOf? sample (s.takeWhile (· ≠ '<'))
    | none => none
  | [] => none

/-- **The resource of a sampler or texture type.** Space characters in the type do not count. -/
def ofHandle? (type : Text) : Option ResourceType :=
  let t := type.filter (· ≠ ' ')
  if t = "sampler".toList then some (.sampler false)
  else if t = "sampler_comparison".toList then some (.sampler true)
  else match after? "texture_depth_".toList t with
    | some base => textureOf? .depth base
    | none => (after? "texture_".toList t).bind sampledTexture?

end ResourceType

/-- **The kind of resource that a binding declares**, if it has a layout. A storage buffer is read
only unless another access mode is declared. -/
def Binding.resourceType? (b : Binding) : Option ResourceType :=
  if b.kind = "uniform" then some .uniformBuffer
  else if b.kind = "storage" then some (.storageBuffer (b.access.all (· = "read")))
  else if b.kind = handleKind then ResourceType.ofHandle? b.type.toList
  else none

/-- **One slot of a layout.** -/
structure LayoutEntry where
  binding : UInt32
  visibility : StageSet
  type : ResourceType
  deriving DecidableEq

/-- The slot of a layout that a binding takes. -/
def Binding.layoutEntry? (b : Binding) : Option LayoutEntry :=
  b.resourceType?.map fun t => ⟨b.binding, b.visibility, t⟩

/-- **The layout of a group**: its slots by increasing number. -/
def BindingSet.layout (set : BindingSet) (group : UInt32) : List LayoutEntry :=
  ((set.entries.filter (·.group = group)).filterMap Binding.layoutEntry?).mergeSort
    fun a b => a.binding.toNat ≤ b.binding.toNat

end ShaderWeave
