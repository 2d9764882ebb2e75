import ShaderWeave.Chunk.Basic
import ShaderWeave.Proofs.Chunk.Block

set_option autoImplicit false

/-!
# Authored templates

The author of a chunk writes shared text with stage blocks in between. This module has such templates,
with what makes them well formed, and the text that they are written as. Reading that text gives back
what was written: the shared text without the blocks, and for each stage the code and the order rule of
its last block.

## Main definitions

* `ShaderWeave.OrderRule.Denotes`, `ShaderWeave.OrderRule.isKnown` — the arguments that denote a rule,
  and those that are recognized.
* `ShaderWeave.WrittenBlock` — a stage block as it is written.
* `ShaderWeave.SharedSegment` — a text in front of a stage block.
* `ShaderWeave.AuthoredTemplate` — segments and blocks in turn, and a last text.

## Main results

* `ShaderWeave.ChunkPart.read_writtenBlock` — a stage block is read as it is written.
* `ShaderWeave.ChunkPart.pieces_segment_block` — a segment is passed over to the block behind it.
* `ShaderWeave.Chunk.ofTemplate_authored` — the chunk of an authored template holds what was written.
-/

namespace ShaderWeave

open Text Scan

/-! ### Arguments of stage blocks -/

namespace OrderRule

/-- **The rule that an argument denotes**, spaces around it and around the name of a chunk aside. -/
inductive Denotes (arg : Text) : OrderRule → Prop where
  | first (h : trim arg = "first".toList) : Denotes arg .first
  | last (h : trim arg = "last".toList) : Denotes arg .last
  | before {target : Text} (h : trim arg = "before:".toList ++ target) :
      Denotes arg (.before (.ofList (trim target)))
  | after {target : Text} (h : trim arg = "after:".toList ++ target) :
      Denotes arg (.after (.ofList (trim target)))

/-- **Whether an argument is recognized**: it is empty, `first`, `last`, or starts with `before:` or
`after:`. -/
def isKnown (arg : Text) : Bool :=
  trim arg = [] ∨ trim arg = "first".toList ∨ trim arg = "last".toList ∨
    "before:".toList <+: trim arg ∨ "after:".toList <+: trim arg

/-- Spaces around an argument do not count. -/
theorem parse?_trim (arg : Text) : parse? (trim arg) = parse? arg := by
  rw [parse?, parse?, trim_trim]

/-- Exactly the arguments that are not recognized are read as nothing, not even as no rule. -/
theorem parse?_eq_none_iff {arg : Text} : parse? arg = none ↔ isKnown arg = false := by
  unfold parse? isKnown
  generalize trim arg = t, "first".toList = first, "last".toList = last,
    "before:".toList = before, "after:".toList = after
  simp only [decide_eq_false_iff_not, not_or]
  split
  · simp_all
  · split
    · simp_all
    · split
      · simp_all
      · split
        · rename_i target h
          simp [after?_eq_some_iff.1 h]
        · rename_i h
          split
          · rename_i target h'
            simp [after?_eq_some_iff.1 h']
          · rename_i h'
            simp_all [after?_eq_none_iff]

/-- The rule that is read is the one that the argument denotes. -/
theorem parse?_eq_some_iff {arg : Text} {rule : OrderRule} :
    (parse? arg).getD none = some rule ↔ Denotes arg rule := by
  constructor
  · intro h
    unfold parse? at h
    simp only at h
    split at h
    · cases h
    · split at h
      · rename_i hf
        cases h
        exact .first hf
      · split at h
        · rename_i hl
          cases h
          exact .last hl
        · split at h
          · rename_i target hb
            cases h
            exact .before (after?_eq_some_iff.1 hb)
          · split at h
            · rename_i target ha
              cases h
              exact .after (after?_eq_some_iff.1 ha)
            · cases h
  · rintro (h | h | h | h)
    · rw [parse?, h]
      rfl
    · rw [parse?, h]
      rfl
    · rw [parse?, h]
      simp [after?]
    · rw [parse?, h]
      simp [after?]

end OrderRule

/-! ### What an author writes -/

/-- **A stage block as it is written**, with blanks behind the stage. The comments of its body are
closed, and the braces outside them are balanced. -/
structure WrittenBlock where
  stage : Stage
  gap : Text
  argument : Option WrittenArgument
  body : Text
  gap_blank : gap.all isBlank = true := by decide
  closed : CommentsClosed body
  balanced : Balanced (lexemes body)

namespace WrittenBlock

/-- The text of a block. -/
def text (b : WrittenBlock) : Text :=
  '@' :: (b.stage.name.toList ++ (b.gap ++ (WrittenArgument.render? b.argument ++
    ('{' :: '{' :: (b.body ++ ['}', '}'])))))

/-- The order rule of a block as it is written; empty where there is no argument. -/
def rule (b : WrittenBlock) : Text :=
  (b.argument.map WrittenArgument.text).getD []

/-- The block that is read. -/
def read (b : WrittenBlock) : StageBlock :=
  ⟨b.stage, trim b.rule, b.body⟩

end WrittenBlock

/-- The stage whose name stands as a whole word at the start of a text. -/
def stageWord? (s : Text) : Option Stage :=
  (word? s).bind fun p => Stage.ofName? p.1

/-- **Whether a text is unmarked**: behind no `@` outside comments there stands the name of a stage. -/
def isUnmarked (s : Text) : Bool :=
  (lexemes s).tails.all fun
    | .live '@' :: ls => (stageWord? (source ls)).isNone
    | _ => true

/-- **A segment of shared text**: it is unmarked, and its comments are closed. -/
structure SharedSegment where
  text : Text
  unmarked : isUnmarked text = true
  closed : CommentsClosed text

/-- **An authored template**: segments with stage blocks behind them, and a last unmarked text. -/
structure AuthoredTemplate where
  parts : List (SharedSegment × WrittenBlock)
  last : Text
  last_unmarked : isUnmarked last = true

namespace AuthoredTemplate

/-- The text of segments with their blocks, in front of another text. -/
def renderParts (parts : List (SharedSegment × WrittenBlock)) (rest : Text) : Text :=
  parts.foldr (fun p s => p.1.text ++ (p.2.text ++ s)) rest

/-- **The text of a template.** -/
def text (t : AuthoredTemplate) : Text :=
  renderParts t.parts t.last

/-- The text outside the blocks. -/
def shared (t : AuthoredTemplate) : Text :=
  t.parts.flatMap (·.1.text) ++ t.last

/-- The blocks, in order. -/
def blocks (t : AuthoredTemplate) : List WrittenBlock :=
  t.parts.map Prod.snd

end AuthoredTemplate

/-! ### Reading a stage block -/

namespace ChunkPart

/-- The head of a block is read as it is written, up to the braces. -/
theorem readHead_text (b : WrittenBlock) (s : Text) :
    readHead (b.text ++ s) =
      some (b.stage, trim b.rule, '{' :: '{' :: (b.body ++ '}' :: '}' :: s)) := by
  let head : StageHead := ⟨b.stage, b.gap, b.argument, b.gap_blank⟩
  have htext : b.text ++ s = head.text ++ '{' :: '{' :: (b.body ++ '}' :: '}' :: s) := by
    simp [WrittenBlock.text, StageHead.text, Stage.mark, head]
  rw [htext]
  exact readHead_stageHead head _

/-- **A stage block is read as it is written.** -/
theorem read_writtenBlock (size : Nat) (b : WrittenBlock) (s : Text) :
    ChunkPart.read size (b.text ++ s) = some (.block b.read, s) := by
  rw [ChunkPart.read, readHead_text]
  simp only [doubleBlock?_of_balanced b.closed b.balanced]
  rfl

/-! ### Passing over shared text -/

/-- What follows a word does not matter to the stage of its name. -/
theorem stageWord?_append (s : Text) {v : Text} (hv : v.head?.any isWordChar = false) :
    stageWord? (s ++ v) = stageWord? s := by
  have htake : (s ++ v).takeWhile isWordChar = s.takeWhile isWordChar := by
    induction s with
    | nil =>
      cases v with
      | nil => rfl
      | cons c v => exact List.takeWhile_cons_of_neg (by simpa using hv)
    | cons c s ih => rw [List.cons_append, List.takeWhile_cons, List.takeWhile_cons, ih]
  unfold stageWord? word?
  rw [htake]
  split <;> rfl

/-- A text is unmarked if and only if no name of a stage stands behind an `@` outside comments. -/
theorem isUnmarked_iff {s : Text} :
    isUnmarked s = true ↔
      ∀ front back, lexemes s = front ++ .live '@' :: back → stageWord? (source back) = none := by
  simp only [isUnmarked, List.all_eq_true, List.mem_tails]
  constructor
  · intro h front back hs
    simpa using h (.live '@' :: back) ⟨front, hs.symm⟩
  · rintro h ls ⟨front, hls⟩
    split
    · rename_i back
      rw [h front back hls.symm]
      rfl
    · rfl

/-- No block starts at a character of an unmarked text, whatever follows that is no word. -/
theorem read_eq_none {size : Nat} {s : Text} (h : isUnmarked s = true) {v : Text}
    (hv : v.head?.any isWordChar = false) {front back : List Lexeme} {c : Char}
    (hs : lexemes s = front ++ .live c :: back) :
    ChunkPart.read size (c :: (source back ++ v)) = none := by
  have hhead : readHead (c :: (source back ++ v)) = none := by
    by_cases hc : c = '@'
    · subst hc
      have hword := stageWord?_append (source back) hv
      rw [isUnmarked_iff.1 h front back hs, stageWord?] at hword
      rw [readHead]
      split
      · rfl
      · rename_i w
        rw [w, Option.bind_some] at hword
        rw [hword]
    · unfold readHead
      split
      · rename_i heq
        exact absurd (List.cons.inj heq).1 hc
      · rfl
  rw [ChunkPart.read, hhead]

/-- **A segment is passed over to the block behind it**, which is read. -/
theorem pieces_segment_block (size : Nat) (segment : SharedSegment) (b : WrittenBlock) (s : Text) :
    ∃ raw, pieces (reader size) (segment.text ++ (b.text ++ s)) =
      (lexemes segment.text).map Lexeme.asPiece ++
        .item raw (.block b.read) :: pieces (reader size) s := by
  let t := b.text ++ s
  obtain ⟨u, hu⟩ : ∃ u, t = '@' :: u := ⟨_, rfl⟩
  have hlex : lexemes (segment.text ++ t) = lexemes segment.text ++ lexemes t := by
    rw [hu, lexemes_append_cons segment.closed (by decide) (by decide)]
  have hv : t.head?.any isWordChar = false := by rw [hu]; rfl
  have hc : comment? t = none := by rw [hu, comment?_cons_eq_none (by decide)]
  refine ⟨t.take (t.length - s.length), ?_⟩
  rw [pieces_append_of_unread hlex fun front c back hs => read_eq_none segment.unmarked hv hs,
    pieces_of_read hc (read_writtenBlock size b s)]

/-- An unmarked text is passed over to its end. -/
theorem pieces_unmarked (size : Nat) {s : Text} (h : isUnmarked s = true) :
    pieces (reader size) s = (lexemes s).map Lexeme.asPiece := by
  have hlex : lexemes s = lexemes s ++ lexemes [] := by rw [lexemes, List.append_nil]
  rw [pieces_append_of_unread hlex fun front c back hs => read_eq_none h rfl hs, pieces,
    List.append_nil]

/-- Passing over lexemes finds no items, and their text is shared. -/
theorem values_map_asPiece (ls : List Lexeme) :
    (ls.map (Lexeme.asPiece : Lexeme → Piece ChunkPart)).filterMap Piece.value? = [] ∧
      (ls.map Lexeme.asPiece).flatMap ChunkContent.sharedText = source ls := by
  induction ls with
  | nil => exact ⟨rfl, rfl⟩
  | cons l ls ih =>
    have hshared : ChunkContent.sharedText l.asPiece = l.text := by cases l <;> rfl
    simp [ih.1, ih.2, hshared]

/-- **The items of segments with their blocks are the blocks, and the other pieces make up the
segments.** -/
theorem pieces_renderParts (size : Nat) (parts : List (SharedSegment × WrittenBlock)) {last : Text}
    (h : isUnmarked last = true) :
    (pieces (reader size) (AuthoredTemplate.renderParts parts last)).filterMap Piece.value? =
        parts.map (fun p => .block p.2.read) ∧
      (pieces (reader size) (AuthoredTemplate.renderParts parts last)).flatMap
        ChunkContent.sharedText = parts.flatMap (·.1.text) ++ last := by
  induction parts with
  | nil =>
    obtain ⟨hvalues, hshared⟩ := values_map_asPiece (lexemes last)
    rw [AuthoredTemplate.renderParts, List.foldr_nil, pieces_unmarked size h]
    exact ⟨hvalues, by rw [hshared, source_lexemes]; rfl⟩
  | cons p parts ih =>
    obtain ⟨segment, b⟩ := p
    obtain ⟨raw, hpieces⟩ :=
      pieces_segment_block size segment b (AuthoredTemplate.renderParts parts last)
    obtain ⟨hvalues, hshared⟩ := values_map_asPiece (lexemes segment.text)
    have hrender : AuthoredTemplate.renderParts ((segment, b) :: parts) last =
        segment.text ++ (b.text ++ AuthoredTemplate.renderParts parts last) := rfl
    rw [hrender, hpieces, List.filterMap_append, List.flatMap_append, hvalues, hshared,
      List.filterMap_cons, List.flatMap_cons, ih.1, ih.2, source_lexemes]
    exact ⟨rfl, by simp [ChunkContent.sharedText]⟩

end ChunkPart

/-! ### The chunk of an authored template -/

namespace ChunkDefect

/-- Whether a defect is an order rule that is not recognized. -/
def isUnknownOrderRule : ChunkDefect → Bool
  | .unknownOrderRule .. => true
  | _ => false

end ChunkDefect

namespace ChunkContent

/-- The content of an authored template. -/
theorem parse_authored (t : AuthoredTemplate) :
    parse t.text =
      ⟨trim t.shared, t.blocks.map WrittenBlock.read,
        defectsOf [] (t.blocks.map fun b => .block b.read)⟩ := by
  obtain ⟨hvalues, hshared⟩ :=
    ChunkPart.pieces_renderParts (byteSize t.text) t.parts t.last_unmarked
  have hblocks : t.parts.map (fun p => ChunkPart.block p.2.read) =
      t.blocks.map fun b => .block b.read := by
    rw [AuthoredTemplate.blocks, List.map_map]
    rfl
  rw [hblocks] at hvalues
  change (pieces _ t.text).filterMap _ = _ at hvalues
  change (pieces _ t.text).flatMap _ = t.shared at hshared
  rw [parse]
  simp only [hvalues, hshared, List.filterMap_map]
  congr 1
  rw [← List.filterMap_eq_map]
  rfl

/-- The last block of a stage is the one that counts. -/
theorem block?_append_cons {front back : List StageBlock} {b : StageBlock}
    (h : ∀ b' ∈ back, b'.stage ≠ b.stage) : block? (front ++ b :: back) b.stage = some b := by
  have hback : back.filter (·.stage = b.stage) = [] :=
    List.filter_eq_nil_iff.2 fun b' hb' => by simpa using h b' hb'
  rw [block?, List.filter_append, List.filter_cons_of_pos (by simp), hback, List.getLast?_concat]

/-- A stage without blocks has none that counts. -/
theorem block?_eq_none {blocks : List StageBlock} {stage : Stage}
    (h : ∀ b ∈ blocks, b.stage ≠ stage) : block? blocks stage = none := by
  have hnone : blocks.filter (·.stage = stage) = [] :=
    List.filter_eq_nil_iff.2 fun b hb => by simpa using h b hb
  rw [block?, hnone, List.getLast?_nil]

/-- Blocks that are closed leave no block open. -/
theorem unterminatedBlock_notMem (earlier : List StageBlock) (blocks : List WrittenBlock)
    (stage : Stage) (offset : Nat) :
    .unterminatedBlock stage offset ∉
      defectsOf earlier (blocks.map fun b => .block b.read) := by
  induction blocks generalizing earlier with
  | nil => simp [defectsOf]
  | cons b blocks ih =>
    rw [List.map_cons, defectsOf, List.mem_append, not_or]
    refine ⟨?_, ih _⟩
    rw [defectsOfBlock]
    split <;> split <;> simp

/-- There is a defect for each order rule that is not recognized, whatever blocks come before. -/
theorem filter_isUnknownOrderRule (earlier : List StageBlock) (blocks : List WrittenBlock) :
    (defectsOf earlier (blocks.map fun b => .block b.read)).filter
        ChunkDefect.isUnknownOrderRule =
      (blocks.filter fun b => !OrderRule.isKnown b.rule).map fun b =>
        .unknownOrderRule b.stage (.ofList (trim b.rule)) := by
  induction blocks generalizing earlier with
  | nil => rfl
  | cons b blocks ih =>
    have hrule : OrderRule.parse? b.read.rule = OrderRule.parse? b.rule :=
      OrderRule.parse?_trim b.rule
    rw [List.map_cons, defectsOf, List.filter_append, ih, defectsOfBlock, List.filter_append,
      List.filter_cons, hrule]
    have hduplicate : (if codeOf earlier b.read.stage = [] then []
        else [ChunkDefect.duplicateBlock b.read.stage]).filter
          ChunkDefect.isUnknownOrderRule = [] := by
      split <;> rfl
    rw [hduplicate, List.nil_append]
    cases hknown : OrderRule.isKnown b.rule with
    | false =>
      rw [if_pos (OrderRule.parse?_eq_none_iff.2 hknown)]
      simp only [WrittenBlock.read, trim_trim]
      rfl
    | true =>
      rw [if_neg fun h => by simp [OrderRule.parse?_eq_none_iff.1 h] at hknown]
      rfl

end ChunkContent

namespace Chunk

/-- **The chunk of an authored template holds what was written**: the shared text is that of the
segments; the code of a stage is the body of its last block, and the order rule the one that the
argument of that block denotes; a stage without a block has neither. No block is left open, and there
is a defect for each argument that is not recognized, in order.

**Proof sketch.** The segments are passed over, because no `@` in them stands before the name of a
stage, and each block is read as it is written, because the search for its `}}` steps over the
balanced body. So the items of the text are the blocks, from which the content is made. -/
theorem ofTemplate_authored (name : String) (t : AuthoredTemplate) :
    let c := Chunk.ofTemplate name (.ofList t.text)
    c.shared = trim t.shared ∧
      (∀ stage, (∀ b ∈ t.blocks, b.stage ≠ stage) → c.code stage = [] ∧ c.orderRule stage = none) ∧
      (∀ front b back, t.blocks = front ++ b :: back → (∀ b' ∈ back, b'.stage ≠ b.stage) →
        c.code b.stage = trim b.body ∧
          ∀ rule, c.orderRule b.stage = some rule ↔ OrderRule.Denotes b.rule rule) ∧
      (∀ stage offset, .unterminatedBlock stage offset ∉ c.defects) ∧
      c.defects.filter ChunkDefect.isUnknownOrderRule =
        (t.blocks.filter fun b => !OrderRule.isKnown b.rule).map fun b =>
          .unknownOrderRule b.stage (.ofList (trim b.rule)) := by
  intro c
  -- the template is read back as its parts
  have hcontent : c.content =
      ⟨trim t.shared, t.blocks.map WrittenBlock.read,
        ChunkContent.defectsOf [] (t.blocks.map fun b => .block b.read)⟩ := by
    rw [c.content_eq, ← ChunkContent.parse_authored]
    exact congrArg _ String.toList_ofList
  refine ⟨?_, ?_, ?_, ?_, ?_⟩
  · rw [shared, hcontent]
  · intro stage h
    have hnone : ChunkContent.block? (t.blocks.map WrittenBlock.read) stage = none := by
      refine ChunkContent.block?_eq_none fun b hb => ?_
      obtain ⟨w, hw, rfl⟩ := List.mem_map.1 hb
      exact h w hw
    rw [code, orderRule, hcontent, ChunkContent.codeOf, hnone]
    exact ⟨rfl, rfl⟩
  · intro front b back hsplit hback
    -- the last block of the stage is the one that counts
    have hlast : ChunkContent.block? (t.blocks.map WrittenBlock.read) b.stage = some b.read := by
      rw [hsplit, List.map_append, List.map_cons]
      refine ChunkContent.block?_append_cons (b := b.read) fun b' hb' => ?_
      obtain ⟨w, hw, rfl⟩ := List.mem_map.1 hb'
      exact hback w hw
    rw [code, orderRule, hcontent, ChunkContent.codeOf, hlast]
    refine ⟨rfl, fun rule => ?_⟩
    rw [← OrderRule.parse?_eq_some_iff, Option.bind_some, StageBlock.order, WrittenBlock.read,
      OrderRule.parse?_trim]
  · intro stage offset
    rw [defects, hcontent]
    exact ChunkContent.unterminatedBlock_notMem [] t.blocks stage offset
  · rw [defects, hcontent]
    exact ChunkContent.filter_isUnknownOrderRule [] t.blocks

/-- A text with a comment that looks like a stage block. -/
def shadeText : Text :=
  "/* @vertex \x7b\x7b \x7d\x7d */ @group(0) ".toList

/-- No stage is marked in the shared text of the example. -/
theorem isUnmarked_shadeText : isUnmarked shadeText = true := by
  decide +kernel

/-- The comment in that text is closed. -/
theorem commentsClosed_shadeText : CommentsClosed shadeText := by
  have h : (lexemes shadeText).filterMap Lexeme.commentText? =
      ["/* @vertex \x7b\x7b \x7d\x7d */".toList] := by
    decide +kernel
  refine commentsClosed_of_forall fun t ht => ?_
  rw [h, List.mem_singleton] at ht
  exact ⟨.block " @vertex \x7b\x7b \x7d\x7d ".toList (by decide), by rw [ht]; decide⟩

/-- A body that ends in a brace. -/
def shadeBody : Text :=
  " if (a) ".toList ++ braced " b(); ".toList

/-- The comment in the body of the example is closed. -/
theorem commentsClosed_shadeBody : CommentsClosed shadeBody := by
  have h : (lexemes shadeBody).filterMap Lexeme.commentText? = [] := by
    decide +kernel
  refine commentsClosed_of_forall fun t ht => ?_
  rw [h] at ht
  cases ht

/-- The braces of that body have their matches. -/
theorem balanced_shadeBody : Balanced (lexemes shadeBody) :=
  ((WellBraced.of_isUncommented (by decide) (by decide) (by decide)).append
    (WellBraced.of_isUncommented (by decide) (by decide) (by decide)).braced).balanced

/-- A block with that body. -/
def shadeBlock : WrittenBlock where
  stage := .fragment
  gap := ['\t', ' ']
  argument := some { text := " after: base ".toList, pad := ['\n', ' '] }
  body := shadeBody
  closed := commentsClosed_shadeBody
  balanced := balanced_shadeBody

/-- A template with two blocks for one stage, which differ in their arguments. -/
def shadeTemplate : AuthoredTemplate where
  parts :=
    [(⟨shadeText, isUnmarked_shadeText, commentsClosed_shadeText⟩,
        { shadeBlock with argument := none }),
      (⟨shadeText, isUnmarked_shadeText, commentsClosed_shadeText⟩, shadeBlock)]
  last := shadeText
  last_unmarked := isUnmarked_shadeText

/-- The chunk of that template. -/
theorem ofTemplate_authored_shade :
    let c := Chunk.ofTemplate "shade" (.ofList shadeTemplate.text)
    c.code .fragment = "if (a) \x7b b(); \x7d".toList ∧ c.code .vertex = [] ∧
      c.orderRule .fragment = some (.after "base") ∧
      c.defects.filter ChunkDefect.isUnknownOrderRule = [] := by
  intro c
  obtain ⟨-, hnone, hlast, -, hunknown⟩ := ofTemplate_authored "shade" shadeTemplate
  obtain ⟨hcode, hrule⟩ := hlast [{ shadeBlock with argument := none }] shadeBlock [] rfl (by simp)
  refine ⟨?_, (hnone .vertex ?_).1, ?_, ?_⟩
  · rw [show Stage.fragment = shadeBlock.stage from rfl, hcode]
    decide
  · intro b hb
    have hstage : shadeTemplate.blocks.all (·.stage = .fragment) = true := rfl
    rw [of_decide_eq_true (List.all_eq_true.1 hstage b hb)]
    decide
  · refine (hrule (.after "base")).2 ?_
    exact @OrderRule.Denotes.after _ " base".toList (by decide)
  · rw [hunknown]
    decide

end Chunk

end ShaderWeave
