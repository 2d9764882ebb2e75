import ShaderWeave.Chunk.Basic

set_option autoImplicit false

/-!
# The sequence of chunks in a stage

The chunks of a stage are put in order by their rules. Chunks without a rule keep their order; those
with the rule `first` come before them, a later one before an earlier one, and those with the rule
`last` behind them. Then each chunk with a rule about another one is placed beside it, one after the
other, so that a chunk can be placed beside one that was placed just before. Where the other chunk is
not there yet, the chunk goes to the end.

## Main definitions

* `ShaderWeave.Chunk.insertBeside?` — a sequence with a chunk placed beside another one.
* `ShaderWeave.Chunk.place` — a sequence with a chunk placed by its rule.
* `ShaderWeave.Chunk.arrange` — chunks in the order of their rules.
-/

namespace ShaderWeave

namespace Chunk

/-- **A chunk placed beside another one**: right before or right behind the first chunk of the name
`target`, if there is one. -/
def insertBeside? (behind : Bool) (target : String) (c : Chunk) : List Chunk → Option (List Chunk)
  | [] => none
  | d :: ds =>
    if d.name = target then some (if behind then d :: c :: ds else c :: d :: ds)
    else (insertBeside? behind target c ds).map (d :: ·)

/-- **A chunk placed by its rule** in the sequence so far. -/
def place (stage : Stage) (sequence : List Chunk) (c : Chunk) : Noted (List Chunk) :=
  let beside (behind : Bool) (target : String) : Noted (List Chunk) :=
    match insertBeside? behind target c sequence with
    | some s => pure s
    | none => do
      .note (.orderTargetMissing c.name target stage)
      return sequence ++ [c]
  match c.orderRule stage with
  | some (.before target) => beside false target
  | some (.after target) => beside true target
  | _ => pure (sequence ++ [c])

/-- The chunks whose rule is about no other chunk, in order. -/
def anchored (stage : Stage) (chunks : List Chunk) : List Chunk :=
  (chunks.filter fun c => c.orderRule stage = some .first).reverse
    ++ chunks.filter (fun c => c.orderRule stage = none)
    ++ chunks.filter fun c => c.orderRule stage = some .last

/-- Whether the rule of a chunk is about another chunk. -/
def isRelative (stage : Stage) (c : Chunk) : Bool :=
  ((c.orderRule stage).bind OrderRule.target?).isSome

/-- **Chunks in the order of their rules** for a stage. -/
def arrange (stage : Stage) (chunks : List Chunk) : Noted (List Chunk) :=
  (chunks.filter (isRelative stage)).foldlM (place stage) (anchored stage chunks)

end Chunk

end ShaderWeave
