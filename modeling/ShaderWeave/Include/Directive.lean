import ShaderWeave.Scan.Comment
import ShaderWeave.Scan.Token

set_option autoImplicit false

/-!
# Include directives

A line of the form `#include name`, with the name alone, in angle brackets or between quotes, asks
for a chunk. A line that starts inside a block comment is no directive, whatever it says.

## Main definitions

* `ShaderWeave.Include.name?` — the name that a line includes.
* `ShaderWeave.Include.directives` — the lines of a text with the names that they include.
* `ShaderWeave.includeNames` — the names that a text includes.
* `ShaderWeave.stripIncludes` — a text without its directives.
* `ShaderWeave.insertIncludes` — a text with further directives.
-/

namespace ShaderWeave

open Text Scan

namespace Include

/-- A name without the brackets or quotes around it. An opening one has to be closed. -/
def unwrap? : Text → Option Text
  | '<' :: s => beforeLast? '>' s
  | '"' :: s => beforeLast? '"' s
  | s => some s

/-- **The name that a line includes**, if it is a directive by its form. Names are not empty and hold
no spaces. -/
def name? (line : Text) : Option Text := do
  let r ← after? "#include".toList (trim line)
  guard (r.head?.any isBlank)
  let name ← (unwrap? (trim r)).map trim
  guard (name ≠ [] ∧ !name.any isSpace)
  return name

/-- Lines with the names that they include, given whether a block comment is open before them. -/
def directivesFrom : (inComment : Bool) → List Text → List (Text × Option Text)
  | _, [] => []
  | inComment, l :: ls =>
    (l, if inComment then none else name? l) :: directivesFrom (commentOpenAfter inComment l) ls

/-- **The lines of a text with the names that they include.** -/
def directives (s : Text) : List (Text × Option Text) :=
  directivesFrom false (lines s)

/-- **Names without repetitions**: each stays where it comes first. -/
def distinct : List String → List String
  | [] => []
  | n :: ns => n :: (distinct ns).filter (· ≠ n)

/-- The names that are left once repetitions are dropped are the names there were. -/
theorem mem_distinct {n : String} {ns : List String} : n ∈ distinct ns ↔ n ∈ ns := by
  induction ns with
  | nil => simp [distinct]
  | cons m ns ih => by_cases h : n = m <;> simp [distinct, h, ih]

/-- No name is left twice. -/
theorem nodup_distinct (ns : List String) : (distinct ns).Nodup := by
  induction ns with
  | nil => exact List.nodup_nil
  | cons m ns ih =>
    refine List.nodup_cons.2 ⟨?_, ih.filter _⟩
    simp

/-- The directive that asks for a chunk. -/
def line (name : String) : Text :=
  "#include <".toList ++ name.toList ++ ['>', '\n']

end Include

/-- **The names that a text includes**, each once, in the order of their first directives. -/
def includeNames (s : Text) : List String :=
  Include.distinct ((Include.directives s).filterMap fun p => p.2.map String.ofList)

/-- **A text without its directives.** -/
def stripIncludes (s : Text) : Text :=
  ((Include.directives s).filter (·.2.isNone)).flatMap Prod.fst

/-- **A text with further directives**: behind the last one that it has, or at its start if it has
none. A last line without a newline gets one. -/
def insertIncludes (names : List String) (s : Text) : Text :=
  if names = [] then s
  else
    let ls := (Include.directives s).reverse
    let head := ((ls.dropWhile (·.2.isNone)).reverse).flatMap Prod.fst
    let tail := ((ls.takeWhile (·.2.isNone)).reverse).flatMap Prod.fst
    let gap : Text := if head = [] ∨ head.getLast? = some '\n' then [] else ['\n']
    head ++ gap ++ names.flatMap Include.line ++ tail

end ShaderWeave
