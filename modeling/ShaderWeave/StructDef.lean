import ShaderWeave.Table

set_option autoImplicit false

/-!
# Structs

Field lists with a name. A template gets the fields of a struct by its name, so that a uniform buffer
is laid out in one place.

## Main definitions

* `ShaderWeave.shadingType?` — the shading type of a type of the host program.
* `ShaderWeave.StructDef` — a struct.
* `ShaderWeave.StructDef.fieldList`, `ShaderWeave.StructDef.declaration` — its text.
* `ShaderWeave.StructRegistry` — structs by name.
-/

namespace ShaderWeave

/-- **A field** of a struct: a name and a type. -/
structure StructField where
  name : String
  type : String
  deriving DecidableEq, Repr

/-- **A struct**: a name and fields. -/
structure StructDef where
  name : String
  fields : List StructField
  deriving DecidableEq, Repr

/-- The scalar type at the end of a vector type's name, by its first letters. -/
def scalarOf? : Text → Option (String × Text)
  | 'V' :: 'e' :: 'c' :: s => some ("f32", s)
  | 'U' :: 'V' :: 'e' :: 'c' :: s => some ("u32", s)
  | 'I' :: 'V' :: 'e' :: 'c' :: s => some ("i32", s)
  | _ => none

/-- **The shading type of a host type.** Scalars keep their names; vectors (`Vec3`, `UVec3`, `IVec3`)
and square matrices (`Mat3`) have two to four rows, and a quaternion (`Quat`) is a vector of four. -/
def shadingType? (host : String) : Option String :=
  let rows (s : Text) : Option String :=
    if s = ['2'] ∨ s = ['3'] ∨ s = ['4'] then some (.ofList s) else none
  if host ∈ ["f32", "u32", "i32", "bool"] then some host
  else if host = "Quat" then some "vec4<f32>"
  else match Text.after? "Mat".toList host.toList with
    | some s => (rows s).map fun n => "mat" ++ n ++ "x" ++ n ++ "<f32>"
    | none => do
      let (scalar, s) ← scalarOf? host.toList
      let n ← rows s
      return "vec" ++ n ++ "<" ++ scalar ++ ">"

namespace StructDef

/-- A field as it stands in a struct. -/
def fieldText (f : StructField) : Text :=
  f.name.toList ++ [':', ' '] ++ f.type.toList ++ [',']

/-- **The fields of a struct**, one on each line. -/
def fieldList (s : StructDef) : Text :=
  Text.join ['\n'] (s.fields.map fieldText)

/-- **The declaration of a struct.** -/
def declaration (s : StructDef) : Text :=
  "struct ".toList ++ s.name.toList ++ [' ', '{', '\n']
    ++ s.fields.flatMap (fun f => List.replicate 4 ' ' ++ fieldText f ++ ['\n']) ++ ['}']

end StructDef

/-- **Structs by name.** -/
abbrev StructRegistry := Table StructDef

namespace StructRegistry

/-- Registers a struct under its name. The last one registered counts. -/
def add (registry : StructRegistry) (s : StructDef) : StructRegistry :=
  registry.insert s.name s

end StructRegistry

end ShaderWeave
