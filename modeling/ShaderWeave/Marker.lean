import ShaderWeave.Scan.Piece
import ShaderWeave.Scan.Token
import ShaderWeave.Stage

set_option autoImplicit false

/-!
# Stage markers

A template shows which stage it is for: by a marker `@vertex` or by the placeholder of a stage. A line
of the form

    @vertex(input) -> output {

is an entry marker. It stands for the head of the entry point, with the names for its argument and
for the value that it builds.

## Main definitions

* `ShaderWeave.stageMarkers` — the markers and placeholders of a text.
* `ShaderWeave.detectStage` — the stage that a template is for.
* `ShaderWeave.EntryMarker` — an entry marker.
* `ShaderWeave.EntryMarker.parse?`, `ShaderWeave.EntryMarker.head` — a marker read and written out.
* `ShaderWeave.expandEntries` — a text with its entry markers written out.
-/

namespace ShaderWeave

open Text Scan

/-! ### The stage of a template -/

/-- **The marker or placeholder at the start of a text**: its stage, and the text behind its first
character. -/
def readStageMarker : Text → Option (Stage × Text)
  | '@' :: s =>
    match word? s with
    | some (w, _) => (Stage.ofName? w).map fun stage => (stage, s)
    | none => none
  | '{' :: '{' :: s =>
    match word? s with
    | some (w, '}' :: '}' :: _) => (Stage.ofName? w).map fun stage => (stage, '{' :: s)
    | _ => none
  | _ => none

/-- The reader of markers and placeholders. -/
def stageMarkerReader : Reader Stage where
  read := readStageMarker
  read_suffix := by
    intro s a r h
    unfold readStageMarker at h
    split at h
    · rename_i t
      refine ⟨'@', t, rfl, ?_⟩
      split at h
      · obtain ⟨_, _, he⟩ := Option.map_eq_some_iff.1 h
        simp only [Prod.mk.injEq] at he
        exact he.2 ▸ List.suffix_refl t
      · simp at h
    · rename_i t
      refine ⟨'{', '{' :: t, rfl, ?_⟩
      split at h
      · obtain ⟨_, _, he⟩ := Option.map_eq_some_iff.1 h
        simp only [Prod.mk.injEq] at he
        exact he.2 ▸ List.suffix_refl _
      · simp at h
    · simp at h

/-- The stages of the markers and placeholders of a text outside comments, in order. -/
def stageMarkers (s : Text) : List Stage :=
  items stageMarkerReader s

/-- **The stage that a template is for** is that of its first marker or placeholder. -/
def detectStage (s : Text) : Option Stage :=
  (stageMarkers s).head?

/-! ### Entry markers -/

/-- **An entry marker**: a stage, the name of the argument and the name of the result. -/
structure EntryMarker where
  stage : Stage
  input : Text
  output : Text
  deriving DecidableEq

namespace EntryMarker

/-- The workgroup size that compute entry points are given. -/
def workgroupSize : Nat :=
  64

/-- **The entry marker that a line consists of**, spaces around it aside. -/
def parse? (line : Text) : Option EntryMarker := do
  let r ← after? ['@'] (trim line)
  let (w, r) ← word? r
  let stage ← Stage.ofName? w
  let (input, r) ← parenthesized? (skipBlanks r)
  let r ← after? ['-', '>'] (trimStart r)
  let (output, r) ← word? (trimStart r)
  guard (trim r = ['{'])
  guard (input ≠ [] ∧ input.all isWordChar)
  return ⟨stage, input, output⟩

/-- **The head of the entry point** that a marker stands for, with an indentation before each line and
without the last newline. -/
def head (m : EntryMarker) (indent : Text) : Text :=
  let signature := "fn ".toList ++ m.stage.entryPoint.toList ++ ['('] ++ m.input ++ [':', ' ']
    ++ m.stage.inputType.toList ++ [')']
  let attributes := '@' :: m.stage.name.toList
  let declaration :=
    "    var ".toList ++ m.output ++ [':', ' '] ++ m.stage.outputType.toList ++ [';']
  match m.stage with
  | .compute =>
    indent ++ attributes ++ s!" @workgroup_size({workgroupSize})".toList ++ ['\n']
      ++ indent ++ signature ++ [' ', '{', '\n'] ++ indent ++ declaration
  | _ =>
    indent ++ attributes ++ ['\n']
      ++ indent ++ signature ++ " -> ".toList ++ m.stage.outputType.toList ++ [' ', '{', '\n']
      ++ indent ++ declaration

/-- A line, with its entry marker written out if it is one. -/
def expandLine (line : Text) : Text :=
  match parse? line with
  | none => line
  | some m =>
    m.head (line.takeWhile isSpace) ++ if line.getLast? = some '\n' then ['\n'] else []

end EntryMarker

/-- **A text with its entry markers written out.** -/
def expandEntries (s : Text) : Text :=
  (lines s).flatMap EntryMarker.expandLine

end ShaderWeave
