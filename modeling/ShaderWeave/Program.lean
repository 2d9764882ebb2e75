import ShaderWeave.Composition
import ShaderWeave.Config
import ShaderWeave.Indentation
import ShaderWeave.Settings

set_option autoImplicit false

/-!
# Programs

A shader is built from a configuration, first the vertex and then the fragment stage. Each stage gets
structs for its input and its output, followed by the entry template; the composed program is
formatted and checked.

## Main definitions

* `ShaderWeave.stageFields` — the fields of the input and output structs of a stage.
* `ShaderWeave.stageTemplate` — the template of a stage.
* `ShaderWeave.Program` — the programs of a configuration.
* `ShaderWeave.Builder.build` — builds the programs of a configuration.
-/

namespace ShaderWeave

open Text

/-! ### The interface of a stage -/

/-- **The location of an item**: the one given, or else its place in its list. -/
def locationOf (given : Option UInt32) (index : Nat) : UInt32 :=
  given.getD (.ofNat (if index < UInt32.size then index else UInt32.size - 1))

/-- A field of a struct with a location. -/
def locatedField (location : UInt32) (attributes name type : String) : Text :=
  ("@location(" ++ toString location ++ ") " ++ attributes ++ name ++ ": " ++ type).toList

/-- The field of the position, which the vertex stage hands over. -/
def positionField : Text :=
  "@builtin(position) position: vec4<f32>".toList

/-- The fields of varyings. They are located by their places. -/
def varyingFields (varyings : List Varying) : List Text :=
  varyings.mapIdx fun i v =>
    let mode := match v.interpolation with
      | some mode => "@interpolate(" ++ mode ++ ") "
      | none => ""
    locatedField (locationOf none i) mode v.name v.type

/-- The fields of vertex attributes. -/
def attributeFields (attributes : List Attribute) : List Text :=
  attributes.mapIdx fun i a => locatedField (locationOf a.location i) "" a.name a.type

/-- The fields of outputs. Without outputs there is one color. -/
def outputFields (outputs : List Output) : List Text :=
  if outputs = [] then [locatedField 0 "" "color" "vec4<f32>"]
  else outputs.mapIdx fun i o => locatedField (locationOf o.location i) "" o.name o.type

/-- **The fields of the input and output structs of a stage.** -/
def stageFields (config : Config) : Stage → List Text × List Text
  | .vertex =>
    (["@builtin(vertex_index) vertex_index: u32".toList,
        "@builtin(instance_index) instance_index: u32".toList] ++ attributeFields config.attributes,
      positionField :: varyingFields config.varyings)
  | .fragment =>
    ([positionField, "@builtin(front_facing) front_facing: bool".toList]
        ++ varyingFields config.varyings,
      outputFields config.outputs)
  | .compute => ([], [])

/-! ### The template of a stage -/

/-- The usual entry template of a stage. There is none for the compute stage. -/
def defaultEntry (stage : Stage) : Text :=
  match stage with
  | .compute => []
  | _ =>
    ("@" ++ stage.name ++ "(input) -> output \x7b\n    " ++ stage.placeholder
      ++ "\n    return output;\n\x7d\n").toList

/-- A struct with the given fields. -/
def interfaceStruct (name : String) (fields : List Text) : Text :=
  "struct ".toList ++ name.toList ++ [' ', '{', '\n']
    ++ fields.flatMap (fun f => List.replicate 4 ' ' ++ f ++ [',', '\n']) ++ ['}', '\n', '\n']

/-- **The template of a stage**: the structs of its interface, and the entry template. -/
def stageTemplate (config : Config) (stage : Stage) : Text :=
  let entry := match config.entryTemplate? stage with
    | some t => t.toList
    | none => defaultEntry stage
  let fields := stageFields config stage
  "// ".toList ++ stage.name.toList ++ " stage\n".toList
    ++ interfaceStruct stage.inputType fields.1 ++ interfaceStruct stage.outputType fields.2 ++ entry

/-! ### Building -/

/-- **The programs of a configuration.** -/
structure Program where
  /-- The digest of the configuration. -/
  digest : Digest
  /-- The name of the configuration. -/
  name : String
  vertex : Text
  fragment : Text
  /-- The bindings of both stages. -/
  bindings : BindingSet

/-- The program of a stage. -/
def Program.source? (p : Program) : Stage → Option Text
  | .vertex => some p.vertex
  | .fragment => some p.fragment
  | .compute => none

/-- Texts that no finished program holds. They show that a substitution went wrong. -/
def verificationMarkers : List String :=
  ["undefined", "[Object"]

/-- **The check of a finished program**: the first marker that it holds is an error. -/
def verify (shader : String) (stage : Stage) (s : Text) : Except BuildError Unit :=
  match verificationMarkers.find? fun m => occurs m.toList s with
  | some m => .error (.verification shader stage m s)
  | none => .ok ()

/-- **What a build draws on.** -/
structure Builder where
  library : Library
  structs : StructRegistry
  settings : Settings

namespace Builder

/-- The composer of the templates of a configuration. -/
def composer (b : Builder) (config : Config) : Composer where
  scope := ⟨config.inlineChunks, b.library⟩
  structs := b.structs
  strict := b.settings.strict
  shader := config.name

/-- **The finished program of a stage**, and the bindings with those that it declares. -/
def buildStage (b : Builder) (config : Config) (stage : Stage) (bindings : BindingSet) :
    Noted (Except BuildError Text × BindingSet) := do
  let (result, bindings) ← (b.composer config).compose config.flags config.chunkNames
    (stageTemplate config stage) bindings
  match result with
  | .error e => return (.error e, bindings)
  | .ok s => do
    let s := if b.settings.formatOutput then format b.settings.indentWidth s else s
    if b.settings.debugPrint then Logged.note (.stageFinished config.name stage (.ofList s))
    match verify config.name stage s with
    | .error e => return (.error e, bindings)
    | .ok _ => return (.ok s, bindings)

/-- **Builds the programs of a configuration**, first that of the vertex stage. -/
def build (b : Builder) (config : Config) : Noted (Except BuildError Program) := do
  let (vertex, bindings) ← b.buildStage config .vertex .empty
  match vertex with
  | .error e => return .error e
  | .ok vertex => do
    let (fragment, bindings) ← b.buildStage config .fragment bindings
    match fragment with
    | .error e => return .error e
    | .ok fragment => return .ok ⟨config.digest, config.name, vertex, fragment, bindings⟩

end Builder

end ShaderWeave
