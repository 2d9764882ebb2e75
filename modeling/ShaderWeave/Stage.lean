import ShaderWeave.Json.Basic

set_option autoImplicit false

/-!
# Stages

A shader is assembled one **stage** at a time. A stage has a name, by which markers and placeholders
of templates refer to it, and fixed names for its entry point and for its input and output structs.

## Main definitions

* `ShaderWeave.Stage` — a stage, with the names that belong to it.
* `ShaderWeave.StageSet` — a set of stages.
-/

namespace ShaderWeave

/-- **A stage** of the pipeline that a program is written for. -/
inductive Stage where
  | vertex
  | fragment
  | compute
  deriving DecidableEq, Repr

namespace Stage

/-- Every stage, in the order in which answers list them. -/
def all : List Stage :=
  [.vertex, .fragment, .compute]

/-- **The name of a stage** in markers and placeholders. -/
def name : Stage → String
  | .vertex => "vertex"
  | .fragment => "fragment"
  | .compute => "compute"

/-- The capitalized name, with which the names of the stage's structs begin. -/
def title : Stage → String
  | .vertex => "Vertex"
  | .fragment => "Fragment"
  | .compute => "Compute"

/-- The name of the entry point function. -/
def entryPoint : Stage → String
  | .vertex => "vs_main"
  | .fragment => "fs_main"
  | .compute => "cs_main"

/-- The name of the struct that the entry point takes. -/
def inputType (s : Stage) : String :=
  s.title ++ "Input"

/-- The name of the struct that the entry point returns. -/
def outputType (s : Stage) : String :=
  s.title ++ "Output"

/-- **The placeholder** that the code of the chunks takes the place of. -/
def placeholder (s : Stage) : String :=
  "\x7b\x7b" ++ s.name ++ "\x7d\x7d"

/-- The stage of a name. -/
def ofName? (name : Text) : Option Stage :=
  all.find? (·.name.toList = name)

/-- The name of a stage names it. -/
@[simp] theorem ofName?_name (s : Stage) : ofName? s.name.toList = some s := by
  cases s <;> rfl

/-- A word that names a stage is its name. -/
theorem name_of_ofName? {w : Text} {s : Stage} (h : ofName? w = some s) : s.name.toList = w := by
  simpa using List.find?_some h

/-- A stage as JSON: its name. -/
def toJson (s : Stage) : Json :=
  .ofString s.name

/-- **The stage that a JSON value stands for**: its name, or an object with null under its name. -/
def ofJson? : Json → Option Stage
  | .string (some name) => ofName? name.toList
  | .object [(some name, .null)] => ofName? name.toList
  | _ => none

end Stage

/-- **A set of stages**, such as the stages that a chunk has code for. -/
structure StageSet where
  vertex : Bool
  fragment : Bool
  compute : Bool
  deriving DecidableEq, Repr

namespace StageSet

/-- The set without stages. -/
def empty : StageSet :=
  ⟨false, false, false⟩

/-- Whether a stage is in a set. -/
def has (set : StageSet) : Stage → Bool
  | .vertex => set.vertex
  | .fragment => set.fragment
  | .compute => set.compute

/-- The set of the stages for which `p` holds. -/
def ofPred (p : Stage → Bool) : StageSet :=
  ⟨p .vertex, p .fragment, p .compute⟩

/-- The set of one stage. -/
def single (s : Stage) : StageSet :=
  ofPred (· = s)

/-- The stages in either set. -/
def union (a b : StageSet) : StageSet :=
  ofPred fun s => a.has s || b.has s

/-- The set of the stages in a list. -/
def ofList (stages : List Stage) : StageSet :=
  ofPred (· ∈ stages)

/-- The stages of a set, in the order of `Stage.all`. -/
def stages (set : StageSet) : List Stage :=
  Stage.all.filter set.has

/-- Whether a set has no stages. -/
def isEmpty (set : StageSet) : Bool :=
  set.stages.isEmpty

/-- A set as a number, with one bit for each stage: 1, 2 and 4 in the order of `Stage.all`. -/
def bits (set : StageSet) : Nat :=
  set.vertex.toNat + 2 * set.fragment.toNat + 4 * set.compute.toNat

/-- The set of the stages with a property has the stages with it. -/
@[simp] theorem has_ofPred (p : Stage → Bool) (s : Stage) : (ofPred p).has s = p s := by
  cases s <;> rfl

/-- The empty set has no stage. -/
@[simp] theorem has_empty (s : Stage) : empty.has s = false := by
  cases s <;> rfl

/-- A union has the stages of both sets. -/
@[simp] theorem has_union (a b : StageSet) (s : Stage) :
    (a.union b).has s = (a.has s || b.has s) := by
  simp [union]

/-- Two sets with the same stages are equal. -/
theorem ext_has {a b : StageSet} (h : ∀ s, a.has s = b.has s) : a = b := by
  cases a; cases b
  simp only [mk.injEq]
  exact ⟨h .vertex, h .fragment, h .compute⟩

/-- The stages that are listed are those of the set. -/
theorem mem_stages {set : StageSet} {s : Stage} : s ∈ set.stages ↔ set.has s = true := by
  cases s <;> simp [stages, Stage.all]

end StageSet

end ShaderWeave
