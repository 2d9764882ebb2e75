import ShaderWeave.Chunk.Library
import ShaderWeave.StructDef

set_option autoImplicit false

/-!
# Built-in chunks and structs

The fragments that most shaders need: camera and model uniforms, the transformation of vertices, the
color of fragments with fog and gamma, and some mathematics.

## Main definitions

* `ShaderWeave.Library.builtinTemplates` — the built-in chunks, by name.
* `ShaderWeave.Library.registerBuiltin` — registers them.
* `ShaderWeave.StructRegistry.builtin` — the structs of their uniforms.
-/

namespace ShaderWeave

namespace Library

/-- Lines as one text. -/
def ofLines (ls : List String) : String :=
  String.join (ls.map (· ++ "\n"))

/-! ### Templates -/

/-- The uniforms of the camera. -/
def camera : String :=
  ofLines [
    "struct CameraUniforms \x7b",
    "    #struct(CameraUniforms)",
    "\x7d",
    "",
    "@group(0) @binding(0) var<uniform> camera: CameraUniforms;"]

/-- Opens the color of a fragment. -/
def colorBegin : String :=
  ofLines [
    "@fragment(first) \x7b\x7b",
    "    var color = vec4<f32>(1.0);",
    "    #if USE_VERTEX_COLOR \x7b",
    "        color = color * input.color;",
    "    \x7d",
    "\x7d\x7d"]

/-- Writes the color of a fragment to the output. -/
def colorEnd : String :=
  ofLines [
    "@fragment(last) \x7b\x7b",
    "    output.color = color;",
    "\x7d\x7d"]

/-- Fades the color of a fragment into fog. -/
def fog : String :=
  ofLines [
    "struct FogUniforms \x7b",
    "    color: vec3<f32>,",
    "    density: f32,",
    "\x7d",
    "",
    "@group(0) @binding(1) var<uniform> fog_params: FogUniforms;",
    "",
    "fn apply_fog(color: vec3<f32>, depth: f32) -> vec3<f32> \x7b",
    "    let factor = 1.0 - exp(-fog_params.density * fog_params.density * depth * depth);",
    "    return mix(color, fog_params.color, saturate(factor));",
    "\x7d",
    "",
    "@fragment \x7b\x7b",
    "    color = vec4<f32>(apply_fog(color.rgb, input.position.z / input.position.w), color.a);",
    "\x7d\x7d"]

/-- Encodes the color of a fragment for display. -/
def gamma : String :=
  ofLines [
    "@fragment(before:color_end) \x7b\x7b",
    "    #if USE_GAMMA \x7b",
    "        color = vec4<f32>(pow(color.rgb, vec3<f32>(1.0 / 2.2)), color.a);",
    "    \x7d",
    "\x7d\x7d"]

/-- Constants and functions of mathematics. -/
def math : String :=
  ofLines [
    "const PI: f32 = 3.141592653589793;",
    "const RECIPROCAL_PI: f32 = 0.3183098861837907;",
    "",
    "fn luminance(rgb: vec3<f32>) -> f32 \x7b",
    "    return dot(rgb, vec3<f32>(0.2126, 0.7152, 0.0722));",
    "\x7d"]

/-- The uniforms of the model. -/
def model : String :=
  ofLines [
    "struct ModelUniforms \x7b",
    "    #struct(ModelUniforms)",
    "\x7d",
    "",
    "@group(1) @binding(0) var<uniform> model: ModelUniforms;"]

/-- Takes a vertex from the model to the screen. -/
def transform : String :=
  ofLines [
    "#include camera",
    "#include model",
    "",
    "@vertex(first) \x7b\x7b",
    "    let world_position = model.world * vec4<f32>(input.position, 1.0);",
    "    output.position = camera.view_projection * world_position;",
    "    #if USE_NORMAL \x7b",
    "        output.normal = normalize((model.normal_matrix * vec4<f32>(input.normal, 0.0)).xyz);",
    "    \x7d",
    "    #if USE_UV \x7b",
    "        output.uv = input.uv;",
    "    \x7d",
    "    #if USE_VERTEX_COLOR \x7b",
    "        output.color = input.color;",
    "    \x7d",
    "\x7d\x7d"]

/-- **The built-in chunks**: their names, in increasing order, and templates. -/
def builtinTemplates : List (String × String) :=
  [("camera", camera),
    ("color_begin", colorBegin),
    ("color_end", colorEnd),
    ("fog", fog),
    ("gamma", gamma),
    ("math", math),
    ("model", model),
    ("transform", transform)]

/-- **Registers the built-in chunks.** -/
def registerBuiltin (lib : Library) : Noted Library := do
  let lib ← lib.addTemplates builtinTemplates
  Logged.note (.builtinRegistered builtinTemplates.length)
  return lib

end Library

namespace StructRegistry

/-- The uniforms of the camera. -/
def cameraUniforms : StructDef :=
  ⟨"CameraUniforms",
    [⟨"view_projection", "mat4x4<f32>"⟩, ⟨"view", "mat4x4<f32>"⟩, ⟨"position", "vec3<f32>"⟩,
      ⟨"time", "f32"⟩]⟩

/-- The uniforms of the model. -/
def modelUniforms : StructDef :=
  ⟨"ModelUniforms", [⟨"world", "mat4x4<f32>"⟩, ⟨"normal_matrix", "mat4x4<f32>"⟩]⟩

/-- **The structs of the built-in chunks.** -/
def builtin : StructRegistry :=
  (add Table.empty cameraUniforms).add modelUniforms

end StructRegistry

end ShaderWeave
