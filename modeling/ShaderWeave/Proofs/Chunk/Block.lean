import ShaderWeave.Chunk.Content
import ShaderWeave.Proofs.Scan.DoubleClose
import ShaderWeave.Proofs.Text.Trim

set_option autoImplicit false

/-!
# Stage blocks as they stand in templates

A stage block stands in a template as its head, that is the mark with its argument, its braces and its
body. Blocks are read exactly where they stand, and one that is opened and never closed is found exactly
where it is opened.

## Main definitions

* `ShaderWeave.StageHead` — the head of a stage block.
* `ShaderWeave.DelimitedBlock` — a stage block as it stands in a template.
* `ShaderWeave.OpensUnclosed` — a text that opens a stage block which is never closed.

## Main results

* `ShaderWeave.ChunkPart.readHead_stageHead`, `ShaderWeave.ChunkPart.exists_stageHead_of_readHead` —
  heads are read as they stand.
* `ShaderWeave.ChunkPart.read_eq_block_iff`, `ShaderWeave.ChunkPart.read_eq_unterminated_iff` — what is
  read at an `@`.
-/

namespace ShaderWeave

open Text Scan

/-! ### Heads of stage blocks -/

/-- **An argument in parentheses**, with blanks behind it. It has no parenthesis and no newline. -/
structure WrittenArgument where
  text : Text
  pad : Text
  onLine : text.all (!endsArgument ·) = true := by decide
  pad_blank : pad.all isBlank = true := by decide

/-- The text of an argument, if there is one. -/
def WrittenArgument.render? : Option WrittenArgument → Text
  | none => []
  | some a => '(' :: (a.text ++ ')' :: a.pad)

/-- The mark that a stage block starts with. -/
def Stage.mark (stage : Stage) : Text :=
  '@' :: stage.name.toList

/-- The mark of a stage block with what stands in front of its braces. -/
structure StageHead where
  stage : Stage
  gap : Text
  argument : Option WrittenArgument
  gap_blank : gap.all isBlank = true := by decide

/-- The text of a head. -/
def StageHead.text (h : StageHead) : Text :=
  h.stage.mark ++ (h.gap ++ WrittenArgument.render? h.argument)

namespace StageHead

/-- The argument of a head as it is written; empty where there is none. -/
def rule (h : StageHead) : Text :=
  (h.argument.map WrittenArgument.text).getD []

/-- A head starts with its mark. -/
theorem exists_text_eq (h : StageHead) : ∃ t, h.text = '@' :: t :=
  ⟨_, rfl⟩

end StageHead

/-! ### Comments in heads -/

namespace Scan

/-- A text of characters of one kind is complete if `/` is not of that kind. -/
theorem complete_of_all {kind : Char → Bool} {u : Text} (h : u.all kind = true)
    (hslash : kind '/' = false) : Complete u := by
  refine complete_of_isUncommented (isUncommented_of_notMem fun hmem => ?_)
  rw [List.all_eq_true.1 h _ hmem] at hslash
  cases hslash

/-- A text is complete if it has no comments, spaces at its ends aside. -/
theorem complete_of_trim {u : Text} (h : isUncommented (trim u) = true) : Complete u := by
  obtain ⟨x, y, hx, hy, hu⟩ := exists_trim u
  rw [hu]
  exact (complete_of_all hx (by decide)).append
    ((complete_of_isUncommented h).append (complete_of_all hy (by decide)))

end Scan

namespace ChunkPart

/-- The name of a stage is a word. -/
theorem name_word (stage : Stage) :
    stage.name.toList ≠ [] ∧ stage.name.toList.all isWordChar = true := by
  cases stage <;> decide

end ChunkPart

/-- **A head is complete** if there is no comment in its argument. -/
theorem StageHead.complete {h : StageHead} (hrule : isUncommented (trim h.rule) = true) :
    Complete h.text := by
  have hword : Complete h.stage.name.toList :=
    complete_of_all (ChunkPart.name_word h.stage).2 (by decide)
  have hmark : Complete h.stage.mark := (complete_singleton (by decide)).append hword
  have hgap : Complete h.gap := complete_of_all h.gap_blank (by decide)
  have hargument : Complete (WrittenArgument.render? h.argument) := by
    cases harg : h.argument with
    | none => exact complete_nil
    | some a =>
      have htext : Complete a.text := complete_of_trim (by simpa [rule, harg] using hrule)
      have hpad : Complete a.pad := complete_of_all a.pad_blank (by decide)
      exact (complete_singleton (by decide)).append
        (htext.append ((complete_singleton (by decide)).append hpad))
  exact hmark.append (hgap.append hargument)

/-! ### Stage blocks -/

/-- **A stage block as it stands in a template**: the mark with its argument, and the body, at whose end
the block is closed for the first time. -/
structure DelimitedBlock where
  head : StageHead
  body : Text
  isBody : IsBody body

namespace DelimitedBlock

/-- The text of a block. -/
def text (b : DelimitedBlock) : Text :=
  b.head.text ++ '{' :: '{' :: (b.body ++ ['}', '}'])

/-- The stage of a block. -/
def stage (b : DelimitedBlock) : Stage :=
  b.head.stage

/-- The block that is read. -/
def read (b : DelimitedBlock) : StageBlock :=
  ⟨b.stage, trim b.head.rule, b.body⟩

/-- A block in front of a text is its head, the two braces, its body, and the two closing ones in front of
the text. -/
theorem text_append (b : DelimitedBlock) (s : Text) :
    b.text ++ s = b.head.text ++ '{' :: '{' :: (b.body ++ '}' :: '}' :: s) := by
  simp [text]

/-- A block starts with its mark. -/
theorem exists_text_eq (b : DelimitedBlock) : ∃ t, b.text = '@' :: t :=
  ⟨_, rfl⟩

end DelimitedBlock

/-- **A text that opens a stage block which is never closed**: no `}}` behind the opening braces closes
it. -/
def OpensUnclosed (stage : Stage) (s : Text) : Prop :=
  ∃ (head : StageHead) (t : Text), head.stage = stage ∧ s = head.text ++ '{' :: '{' :: t ∧
    ∀ p q, t = p ++ '}' :: '}' :: q → ¬ClosesBehind p

namespace ChunkPart

/-- The head of a block is read as it stands, up to the brace. -/
theorem readHead_stageHead (head : StageHead) (s : Text) :
    readHead (head.text ++ '{' :: s) = some (head.stage, trim head.rule, '{' :: s) := by
  let t := WrittenArgument.render? head.argument ++ '{' :: s
  have htext : head.text ++ '{' :: s = '@' :: (head.stage.name.toList ++ (head.gap ++ t)) := by
    simp [StageHead.text, Stage.mark, t]
  -- a blank, a parenthesis or a brace ends the name of the stage
  have hnext : (head.gap ++ t).head?.any isWordChar = false := by
    cases hg : head.gap with
    | nil => cases h : head.argument <;> simp [t, h, WrittenArgument.render?] <;> decide
    | cons c u =>
      have hc : isBlank c = true := List.all_eq_true.1 head.gap_blank c (by rw [hg]; simp)
      simp [isWordChar_eq_false_of_isBlank hc]
  rw [htext, readHead, word?_append (name_word head.stage).1 (name_word head.stage).2 hnext]
  simp only [Stage.ofName?_name, skipBlanks_append head.gap_blank, StageHead.rule, t]
  cases head.argument with
  | none => rfl
  | some a =>
    rw [WrittenArgument.render?, List.cons_append, List.append_assoc, List.cons_append,
      skipBlanks_cons (by decide)]
    simp only [parenthesized?_append a.onLine, skipBlanks_append a.pad_blank]
    rfl

/-- **What a head is read from.** -/
theorem exists_stageHead_of_readHead {s rule r : Text} {stage : Stage}
    (h : readHead s = some (stage, rule, r)) :
    ∃ head : StageHead, s = head.text ++ r ∧ head.stage = stage ∧ trim head.rule = rule := by
  have hblanks : ∀ u : Text, ∃ w : Text, w.all isBlank = true ∧ u = w ++ skipBlanks u := fun u =>
    ⟨u.takeWhile isBlank, List.all_takeWhile, List.takeWhile_append_dropWhile.symm⟩
  unfold readHead at h
  split at h
  · rename_i s
    split at h
    · cases h
    · rename_i name r₁ hword
      obtain ⟨-, -, rfl⟩ := eq_of_word? hword
      obtain ⟨gap, hgap, hr₁⟩ := hblanks r₁
      split at h
      · cases h
      · rename_i hstage
        have hname := Stage.name_of_ofName? hstage
        split at h
        · rename_i t ht
          split at h
          · rename_i arg r₂ hargument
            obtain ⟨u, hu, rfl, heq⟩ := exists_of_parenthesized? hargument
            obtain ⟨pad, hpad, hr₂⟩ := hblanks r₂
            cases h
            refine ⟨⟨stage, gap, some ⟨u, pad, hu, hpad⟩, hgap⟩, ?_, rfl, rfl⟩
            rw [hr₁, ht, heq]
            nth_rewrite 1 [hr₂]
            simp [StageHead.text, Stage.mark, WrittenArgument.render?, hname]
          · cases h
        · cases h
          refine ⟨⟨stage, gap, none, hgap⟩, ?_, rfl, rfl⟩
          nth_rewrite 1 [hr₁]
          simp [StageHead.text, Stage.mark, WrittenArgument.render?, hname]
  · cases h

/-- **A stage block is read exactly where one stands.** -/
theorem read_eq_block_iff {size : ℕ} {s r : Text} {b : StageBlock} :
    read size s = some (.block b, r) ↔ ∃ d : DelimitedBlock, s = d.text ++ r ∧ d.read = b := by
  constructor
  · intro h
    unfold read at h
    split at h
    · cases h
    · rename_i stage rule r₁ hhead
      obtain ⟨head, rfl, rfl, rfl⟩ := exists_stageHead_of_readHead hhead
      unfold doubleBlock? at h
      split at h
      · cases h
      · cases h
      · rename_i body r₂ hblock
        cases h
        split at hblock
        · obtain ⟨rfl, hbody⟩ := cutAtDouble?_eq_some_iff.1 (Option.some.inj hblock)
          exact ⟨⟨head, body, hbody⟩, by simp [DelimitedBlock.text], rfl⟩
        · cases hblock
  · rintro ⟨d, rfl, rfl⟩
    have hcut : cutAtDouble? 0 (d.body ++ '}' :: '}' :: r) = some (d.body, r) :=
      cutAtDouble?_eq_some_iff.2 ⟨rfl, d.isBody⟩
    rw [d.text_append, read, readHead_stageHead]
    simp only [doubleBlock?, hcut]
    rfl

/-- **An unclosed block is read exactly where one is opened.** -/
theorem read_eq_unterminated_iff {size offset : ℕ} {s r : Text} {stage : Stage} :
    read size s = some (.unterminated stage offset, r) ↔
      OpensUnclosed stage s ∧ offset = size - byteSize s ∧ r = s.tail := by
  constructor
  · intro h
    unfold read at h
    split at h
    · cases h
    · rename_i stage' rule r₁ hhead
      obtain ⟨head, rfl, rfl, rfl⟩ := exists_stageHead_of_readHead hhead
      unfold doubleBlock? at h
      split at h
      · cases h
      · rename_i hblock
        cases h
        split at hblock
        · refine ⟨⟨head, _, rfl, rfl, ?_⟩, rfl, rfl⟩
          exact cutAtDouble?_eq_none_iff.1 (Option.some.inj hblock)
        · cases hblock
      · cases h
  · rintro ⟨⟨head, t, rfl, rfl, hnone⟩, rfl, rfl⟩
    have hcut := cutAtDouble?_eq_none_iff.2 hnone
    rw [read, readHead_stageHead]
    simp only [doubleBlock?, hcut]

/-- Where nothing is read, no block stands and none is opened. -/
theorem of_read_eq_none {size : ℕ} {s : Text} (h : read size s = none) :
    (∀ d : DelimitedBlock, ¬d.text <+: s) ∧ ∀ stage, ¬OpensUnclosed stage s := by
  constructor
  · rintro d ⟨r, hr⟩
    rw [read_eq_block_iff.2 ⟨d, hr.symm, rfl⟩] at h
    cases h
  · intro stage hopens
    rw [read_eq_unterminated_iff.2 ⟨hopens, rfl, rfl⟩] at h
    cases h

end ChunkPart

end ShaderWeave
