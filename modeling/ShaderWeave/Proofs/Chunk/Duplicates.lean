import ShaderWeave.Proofs.Include.Strictness

set_option autoImplicit false

/-!
# Repeated stage blocks

A template may give a stage several blocks, of which the last one counts. Each block that is replaced by a
later one is a defect if it has code. A block without code is replaced without notice, so the number of
defects falls behind the number of replaced blocks by the number of those.

## Main results

* `ShaderWeave.ChunkContent.count_duplicateBlock` — the defects count the replaced blocks with code.
* `ShaderWeave.Composer.accepts_of_compose_eq_ok` — a strict composition that succeeds has accepted
  every chunk that it includes.
* `ShaderWeave.Chunk.replaced_blocks_reported` — both together for the chunk of a template.
* `ShaderWeave.Chunk.blank_block_replaced` — a block without code that is replaced without notice.
-/

namespace ShaderWeave

open Text Scan

namespace ChunkContent

/-- Whether a block has code. -/
def hasCode (b : StageBlock) : Bool :=
  b.code ≠ []

/-- **One more block of a stage** is a defect if the one that it replaces has code. -/
theorem count_defectsOfBlock (earlier : List StageBlock) (b : StageBlock) (stage : Stage) :
    (earlier.filter (·.stage = stage)).dropLast.countP hasCode +
        (defectsOfBlock earlier b).count (.duplicateBlock stage) =
      ((earlier ++ [b]).filter (·.stage = stage)).dropLast.countP hasCode := by
  have hrule : (if OrderRule.parse? b.rule = none then
      [ChunkDefect.unknownOrderRule b.stage (.ofList (trim b.rule))] else []).count
        (.duplicateBlock stage) = 0 := by
    split <;> simp
  rw [defectsOfBlock, List.count_append, hrule, Nat.add_zero, List.filter_append]
  by_cases hstage : b.stage = stage
  · rw [List.filter_cons_of_pos (by simpa using hstage), List.filter_nil, List.dropLast_concat, hstage,
      codeOf, block?]
    -- the block before it is the last one of its stage so far
    rcases List.eq_nil_or_concat' (earlier.filter (·.stage = stage)) with hnil | ⟨front, last, hlast⟩
    · rw [hnil]
      rfl
    · rw [hlast, List.dropLast_concat, List.getLast?_concat, List.countP_append, List.countP_singleton]
      by_cases hcode : last.code = [] <;> simp [hasCode, hcode]
  · rw [List.filter_cons_of_neg (by simpa using hstage), List.filter_nil, List.append_nil]
    split <;> simp [hstage]

/-- **The defects of parts count the replaced blocks with code**, those among the given blocks aside.

**Proof sketch.** Induction on the parts. A block makes the last one of its stage a replaced one, which is
the one that it is a defect for; an opening of a block that is never closed replaces nothing. -/
theorem count_defectsOf (earlier : List StageBlock) (parts : List ChunkPart) (stage : Stage) :
    (earlier.filter (·.stage = stage)).dropLast.countP hasCode +
        (defectsOf earlier parts).count (.duplicateBlock stage) =
      ((earlier ++ parts.filterMap ChunkPart.block?).filter (·.stage = stage)).dropLast.countP
        hasCode := by
  induction parts generalizing earlier with
  | nil => simp [defectsOf]
  | cons part parts ih =>
    cases part with
    | block b =>
      have hrest := ih (earlier ++ [b])
      rw [List.append_assoc, List.singleton_append] at hrest
      rw [defectsOf, List.count_append, ← Nat.add_assoc, count_defectsOfBlock, hrest]
      rfl
    | unterminated st offset =>
      rw [defectsOf, List.count_cons_of_ne (by simp), ih]
      rfl

/-- **The defects of a template count the replaced blocks with code.** -/
theorem count_duplicateBlock (template : Text) (stage : Stage) :
    (parse template).defects.count (.duplicateBlock stage) =
      ((parse template).blocks.filter (·.stage = stage)).dropLast.countP hasCode := by
  have := count_defectsOf [] ((pieces (ChunkPart.reader (byteSize template)) template).filterMap
    Piece.value?) stage
  rwa [List.nil_append, List.filter_nil, List.dropLast_nil, List.countP_nil, Nat.zero_add] at this

end ChunkContent

namespace Composer

/-- **A strict composition that succeeds has accepted every chunk that it includes.** -/
theorem accepts_of_compose_eq_ok {composer : Composer} (hstrict : composer.strict = true)
    {flags : Flags} {names : List String} {template program : Text} {bindings : BindingSet}
    (h : (composer.compose flags names template bindings).value.1 = .ok program) {n : String}
    (hn : composer.scope.Reachable (prepared flags names template) n) : composer.scope.Accepts n := by
  rw [value_compose, hstrict, Scope.collect_strict_eq] at h
  cases hwalk : composer.scope.gatherFrom composer.shader
      (includeNames (prepared flags names template)) (includeNames (prepared flags names template)) with
  | error e =>
    rw [hwalk] at h
    cases h
  | ok chunks =>
    have hvisited := (composer.scope.isDiscovery_visited (prepared flags names template)).mem_iff n
    exact (Scope.gatherFrom_eq_ok hwalk).1 n (hvisited.2 hn)

end Composer

namespace Chunk

/-- **Replaced blocks are reported if they have code.** The number of defects for the repetition of a
stage is the number of blocks with code among all but the last one of the stage; it is one less than the
number of the blocks exactly if all of those have code. A strict composition that succeeds includes no
chunk with such a block: in each chunk that it includes only blocks without code are replaced. -/
theorem replaced_blocks_reported (c : Chunk) (stage : Stage) :
    let blocks := c.content.blocks.filter (·.stage = stage)
    c.defects.count (.duplicateBlock stage) = blocks.dropLast.countP ChunkContent.hasCode ∧
      (c.defects.count (.duplicateBlock stage) = blocks.length - 1 ↔
        ∀ b ∈ blocks.dropLast, b.code ≠ []) ∧
      ∀ (composer : Composer) (flags : Flags) (names : List String) (template program : Text)
        (bindings : BindingSet) (n : String), composer.strict = true →
        (composer.compose flags names template bindings).value.1 = .ok program →
        composer.scope.Reachable (Composer.prepared flags names template) n →
        composer.scope.find? n = some c → ∀ b ∈ blocks.dropLast, b.code = [] := by
  intro blocks
  have hcount : c.defects.count (.duplicateBlock stage) =
      blocks.dropLast.countP ChunkContent.hasCode := by
    simp only [blocks]
    rw [defects, c.content_eq]
    exact ChunkContent.count_duplicateBlock _ stage
  refine ⟨hcount, ?_, ?_⟩
  · rw [hcount, ← List.length_dropLast, List.countP_eq_length]
    simp [ChunkContent.hasCode]
  · intro composer flags names template program bindings n hstrict hok hn hfind b hb
    obtain ⟨d, hd, hnone⟩ := Composer.accepts_of_compose_eq_ok hstrict hok hn
    obtain rfl : c = d := Option.some.inj (hfind.symm.trans hd)
    rw [hnone, List.count_nil, eq_comm, List.countP_eq_zero] at hcount
    simpa [ChunkContent.hasCode] using hcount b hb

/-- A chunk with two blocks for a stage, the first of them without code. -/
def faded : Chunk :=
  .ofTemplate "faded" "@vertex \x7b\x7b \x7d\x7d @vertex \x7b\x7b fade(); \x7d\x7d"

/-- A chunk with three blocks for a stage, the second of them without code. -/
def thrice : Chunk :=
  .ofTemplate "thrice"
    "@vertex \x7b\x7b a(); \x7d\x7d @vertex(last) \x7b\x7b\x7d\x7d @vertex \x7b\x7b c(); \x7d\x7d"

/-- A strict composer with these two chunks and an empty library. -/
def repeating : Composer :=
  ⟨⟨[faded, thrice], Table.empty⟩, Table.empty, true, Composer.anonymous⟩

/-- The second chunk has one defect for its repeated blocks, and the first one, which a strict composition
includes, replaces a block without code. -/
theorem replaced_blocks_reported_thrice :
    thrice.defects.count (.duplicateBlock .vertex) = 1 ∧
      (repeating.compose Table.empty ["faded"] ['x'] .empty).value.1 = .ok ['x'] ∧
      ∀ b ∈ (faded.content.blocks.filter (·.stage = .vertex)).dropLast, b.code = [] := by
  have hok : (repeating.compose Table.empty ["faded"] ['x'] .empty).value.1 = .ok ['x'] := by
    decide +kernel
  have hreachable :
      repeating.scope.Reachable (Composer.prepared Table.empty ["faded"] ['x']) "faded" :=
    .root (Include.mem_includeNames_iff.1 (by decide +kernel))
  refine ⟨?_, hok, ?_⟩
  · rw [(replaced_blocks_reported thrice .vertex).1]
    decide +kernel
  · exact (replaced_blocks_reported faded .vertex).2.2 repeating _ _ _ _ _ "faded" rfl hok hreachable rfl

/-- **A block without code is replaced without notice**: there are two blocks for the stage and no
defect, and a strict composition that includes the chunk succeeds. -/
theorem blank_block_replaced :
    (faded.content.blocks.filter (·.stage = .vertex)).length = 2 ∧
      faded.defects.count (.duplicateBlock .vertex) = 0 ∧
      (repeating.compose Table.empty ["faded"] "\x7b\x7bvertex\x7d\x7d".toList .empty).value.1 =
        .ok "fade();".toList := by
  decide +kernel

end Chunk

end ShaderWeave
