import ShaderWeave.Chunk.Defect
import ShaderWeave.Chunk.OrderRule
import ShaderWeave.Scan.Brace
import ShaderWeave.Scan.Piece

set_option autoImplicit false

/-!
# The content of chunk templates

A chunk template holds code for stages in **stage blocks**

    @fragment(before:gamma) {{ ... }}

with an optional order rule in parentheses. The text outside all blocks is shared by the stages. A
block that is opened and never closed is a defect; its text stays in the shared part, and reading
goes on behind its `@`.

## Main definitions

* `ShaderWeave.StageBlock` — a stage block.
* `ShaderWeave.ChunkPart.reader` — reads stage blocks and openings of blocks that are never closed.
* `ShaderWeave.ChunkContent` — shared text, stage blocks and defects of a template.
* `ShaderWeave.ChunkContent.parse` — the content of a template.
-/

namespace ShaderWeave

open Text Scan

/-- **A stage block**: its stage, the argument in parentheses, which is empty where there is none, and
its body as it stands. -/
structure StageBlock where
  stage : Stage
  rule : Text
  body : Text
  deriving DecidableEq

/-- The code of a block is its body without the spaces around it. -/
def StageBlock.code (b : StageBlock) : Text :=
  trim b.body

/-- The order rule of a block, if its argument denotes one. -/
def StageBlock.order (b : StageBlock) : Option OrderRule :=
  (OrderRule.parse? b.rule).getD none

/-- **A part of a chunk template** that is not plain text. -/
inductive ChunkPart where
  | block (b : StageBlock)
  /-- The `@` of a block that is never closed, so many bytes into the template. -/
  | unterminated (stage : Stage) (offset : Nat)
  deriving DecidableEq

namespace ChunkPart

/-- The stage and the argument that a stage block starts with, and the text from its `{{` on. An
argument that is opened has to be closed. -/
def readHead : Text → Option (Stage × Text × Text)
  | '@' :: s =>
    match word? s with
    | none => none
    | some (name, r) =>
      match Stage.ofName? name with
      | none => none
      | some stage =>
        match skipBlanks r with
        | '(' :: t =>
          match parenthesized? ('(' :: t) with
          | some (rule, r) => some (stage, rule, skipBlanks r)
          | none => none
        | r => some (stage, [], r)
  | _ => none

/-- **The part at the start of a text** that ends a template of `size` bytes. -/
def read (size : Nat) (s : Text) : Option (ChunkPart × Text) :=
  match readHead s with
  | none => none
  | some (stage, rule, r) =>
    match doubleBlock? r with
    | none => none
    | some none => some (.unterminated stage (size - byteSize s), s.tail)
    | some (some (body, r)) => some (.block ⟨stage, rule, body⟩, r)

/-- What is left behind the head of a stage block is an end of the text, and the `@` is gone. -/
theorem readHead_suffix {s rule r : Text} {stage : Stage}
    (h : readHead s = some (stage, rule, r)) : ∃ t, s = '@' :: t ∧ r <:+ t := by
  unfold readHead at h
  split at h
  · rename_i t
    refine ⟨t, rfl, ?_⟩
    split at h
    · simp at h
    · rename_i name r₁ hw
      split at h
      · simp at h
      · rename_i stage' _
        have h₁ := (skipBlanks_suffix r₁).trans (word?_suffix hw)
        split at h
        · rename_i t' ht'
          split at h
          · rename_i rule' r₂ hp
            simp only [Option.some.injEq, Prod.mk.injEq] at h
            obtain ⟨_, _, rfl⟩ := h
            have h₂ := (skipBlanks_suffix r₂).trans (parenthesized?_suffix hp)
            rw [← ht'] at h₂
            exact h₂.trans h₁
          · simp at h
        · simp only [Option.some.injEq, Prod.mk.injEq] at h
          obtain ⟨_, _, rfl⟩ := h
          exact h₁
  · simp at h

/-- **The reader of the parts** of a template of `size` bytes. -/
def reader (size : Nat) : Reader ChunkPart where
  read := read size
  read_suffix := by
    intro s a r h
    unfold read at h
    split at h
    · simp at h
    · rename_i stage rule r₁ hh
      obtain ⟨t, rfl, ht⟩ := readHead_suffix hh
      refine ⟨'@', t, rfl, ?_⟩
      split at h
      · simp at h
      · simp only [Option.some.injEq, Prod.mk.injEq, List.tail_cons] at h
        exact h.2 ▸ List.suffix_refl t
      · rename_i body r₂ hb
        simp only [Option.some.injEq, Prod.mk.injEq] at h
        obtain ⟨_, rfl⟩ := h
        have : r₂ <:+ r₁ := by
          rw [doubleBlock?_eq_append hb]
          exact ⟨'{' :: '{' :: body ++ ['}', '}'], by simp⟩
        exact this.trans ht

/-- The stage block of a part. -/
def block? : ChunkPart → Option StageBlock
  | .block b => some b
  | .unterminated .. => none

end ChunkPart

/-- **The content of a chunk template.** -/
structure ChunkContent where
  /-- The text outside all stage blocks, without the spaces around it. -/
  shared : Text
  /-- The stage blocks, in order. -/
  blocks : List StageBlock
  /-- What is wrong with the template, in order. -/
  defects : List ChunkDefect
  deriving DecidableEq

namespace ChunkContent

/-- **The block of a stage** that counts is the last one. -/
def block? (blocks : List StageBlock) (stage : Stage) : Option StageBlock :=
  (blocks.filter (·.stage = stage)).getLast?

/-- The code of a stage is that of its block; a stage without a block has none. -/
def codeOf (blocks : List StageBlock) (stage : Stage) : Text :=
  ((block? blocks stage).map StageBlock.code).getD []

/-- The defects of one more block behind others. -/
def defectsOfBlock (earlier : List StageBlock) (b : StageBlock) : List ChunkDefect :=
  (if codeOf earlier b.stage = [] then [] else [.duplicateBlock b.stage])
    ++ (if OrderRule.parse? b.rule = none then
      [.unknownOrderRule b.stage (.ofList (trim b.rule))] else [])

/-- **The defects of parts** behind the given blocks. -/
def defectsOf (earlier : List StageBlock) : List ChunkPart → List ChunkDefect
  | [] => []
  | .block b :: ps => defectsOfBlock earlier b ++ defectsOf (earlier ++ [b]) ps
  | .unterminated stage offset :: ps => .unterminatedBlock stage offset :: defectsOf earlier ps

/-- The text of a piece that is shared by the stages: all but stage blocks. -/
def sharedText : Piece ChunkPart → Text
  | .item _ (.block _) => []
  | p => p.text

/-- **The content of a template.** -/
def parse (template : Text) : ChunkContent :=
  let ps := pieces (ChunkPart.reader (byteSize template)) template
  let parts := ps.filterMap Piece.value?
  { shared := trim (ps.flatMap sharedText)
    blocks := parts.filterMap ChunkPart.block?
    defects := defectsOf [] parts }

end ChunkContent

end ShaderWeave
