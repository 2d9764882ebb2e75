import Mathlib.Logic.Function.Basic
import ShaderWeave.Chunk.Content
import ShaderWeave.Proofs.Bytewise.Brace
import ShaderWeave.Proofs.Bytewise.Marker

set_option autoImplicit false

/-!
# Chunk templates in bytes

The reading of a chunk template, for a program that holds its bytes. The bodies of the stage blocks, and
what is left of the template without them, are cut out of it.

## Main definitions

* `ShaderWeave.Bytewise.readStageBlock` — the stage block at an offset.
* `ShaderWeave.Bytewise.ParsedTemplate` — what a template holds, in bytes.
* `ShaderWeave.Bytewise.parseTemplate` — reads a template.

## Main results

* `ShaderWeave.Bytewise.parseTemplate_utf8` — nothing goes wrong in the reading of a template, and what it
  holds is in the bytes of its content.
-/

namespace ShaderWeave

namespace Bytewise

open Text Bytes Scan

variable {S s r : Text}

/-! ### Stage blocks -/

/-- **A stage block in bytes**, with the offset behind it. -/
structure ReadStageBlock where
  stage : Stage
  rule : Bytes
  body : Bytes
  stop : Nat

/-- The stage and the argument that a stage block starts with, with the offset behind them. -/
def readHead (src : Bytes) (i : Nat) : Reading (Stage × Bytes × Nat) := do
  let (word, i) ← readWord src (i + 1)
  let stage ← readStage word
  let i := skipBlanks src i
  if src[i]? = some (ascii '(') then do
    let (rule, i) ← readParens src i
    return (stage, rule, skipBlanks src i)
  else return (stage, [], i)

/-- **The stage block at an offset**, or the defect that it is never closed. -/
def readStageBlock (src : Bytes) (i : Nat) : Reading (Except ChunkDefect ReadStageBlock) := do
  let (stage, rule, j) ← readHead src i
  let start ← readPrefix ['{', '{'] src j
  match ← liftM (findDoubleClose src start) with
  | none => return .error (.unterminatedBlock stage i)
  | some close =>
    let body ← liftM (slice src start close)
    return .ok ⟨stage, rule, body, close + 2⟩

/-! ### Templates -/

/-- **What a chunk template holds, in bytes.** -/
structure ParsedTemplate where
  code : Stage → Bytes
  order : Stage → Option OrderRule
  shared : Bytes
  defects : List ChunkDefect

/-- What a template holds with one more stage block. The code and the order rule of the stage are now
those of the block. -/
def ParsedTemplate.store (parsed : ParsedTemplate) (block : ReadStageBlock) : Guarded ParsedTemplate := do
  let body ← text block.body
  let rule ← text block.rule
  return { parsed with
    code := Function.update parsed.code block.stage (utf8 (trim body))
    order := Function.update parsed.order block.stage ((OrderRule.parse? rule).getD none)
    defects := parsed.defects
      ++ (if parsed.code block.stage = [] then [] else [.duplicateBlock block.stage])
      ++ (if OrderRule.parse? rule = none then [.unknownOrderRule block.stage (.ofList (trim rule))]
        else []) }

/-- What a template holds with what is read at an offset. A block is cut out of the template. -/
def findPart (src : Bytes) (i : Nat) (b : UInt8) (parsed : ParsedTemplate) :
    Guarded (ParsedTemplate × Option (Bytes × Nat)) :=
  if b = ascii '@' then do
    match ← (readStageBlock src i).run with
    | none => return (parsed, none)
    | some (.error defect) => return ({ parsed with defects := parsed.defects ++ [defect] }, none)
    | some (.ok block) =>
      let parsed ← parsed.store block
      return (parsed, some ([], block.stop))
  else return (parsed, none)

/-- **What the bytes of a template hold.** -/
def parseTemplate (src : Bytes) : Guarded ParsedTemplate := do
  let (rest, parsed) ← rewrite src (findPart src) ⟨fun _ => [], fun _ => none, [], []⟩
  let rest ← text rest
  return { parsed with shared := utf8 (trim rest) }

/-! ### Reading -/

/-- The head of a stage block, step by step. -/
theorem readHead_eq (s : Text) :
    ChunkPart.readHead ('@' :: s) =
      (word? s).bind fun p => (Stage.ofName? p.1).bind fun stage =>
        if (Text.skipBlanks p.2).head? = some '(' then
          (parenthesized? (Text.skipBlanks p.2)).bind fun q => some (stage, q.1, Text.skipBlanks q.2)
        else some (stage, [], Text.skipBlanks p.2) := by
  rw [ChunkPart.readHead]
  cases word? s with
  | none => rfl
  | some p =>
    obtain ⟨name, r⟩ := p
    simp only [Option.bind_some]
    cases Stage.ofName? name with
    | none => rfl
    | some stage =>
      simp only [Option.bind_some]
      split
      · rename_i t ht
        rw [ht, List.head?_cons, if_pos rfl]
        cases parenthesized? ('(' :: t) with
        | none => rfl
        | some q => rfl
      · rename_i hparen
        rw [if_neg]
        intro hhead
        obtain ⟨t, ht⟩ := List.head?_eq_some_iff.1 hhead
        exact hparen t ht

/-- **The head of a stage block at a place.** -/
theorem readHead_place (h : '@' :: s <:+ S) :
    (readHead (utf8 S) (place S ('@' :: s))).run =
      .ok ((ChunkPart.readHead ('@' :: s)).map fun p => (p.1, utf8 p.2.1, place S p.2.2)) := by
  have hs : s <:+ S := (List.suffix_cons _ s).trans h
  rw [readHead, readHead_eq, place_cons (by decide) h]
  refine Reading.run_bind_map (readWord_place hs) ?_
  rintro ⟨name, r⟩ hword
  have hr : Text.skipBlanks r <:+ S := ((skipBlanks_suffix r).trans (word?_suffix hword)).trans hs
  refine Reading.run_bind_same (readStage_utf8 name) ?_
  intro stage _
  have hopen := getElem?_place_eq_iff (a := '(') (by decide) hr
  rw [skipBlanks_place ((word?_suffix hword).trans hs)]
  by_cases hhead : (Text.skipBlanks r).head? = some '('
  · rw [if_pos (hopen.2 hhead), if_pos hhead]
    refine Reading.run_bind_map (readParens_place hr) ?_
    rintro ⟨rule, r'⟩ hparens
    have hr' : r' <:+ S := (parenthesized?_suffix hparens).trans hr
    simp only [skipBlanks_place hr']
    rfl
  · rw [if_neg (mt hopen.1 hhead), if_neg hhead]
    rfl

/-- A part of a chunk template in the bytes of a text that what is read ends. -/
def encodedPart (S : Text) : ChunkPart × Text → Except ChunkDefect ReadStageBlock
  | (.unterminated stage offset, _) => .error (.unterminatedBlock stage offset)
  | (.block b, r) => .ok ⟨b.stage, utf8 b.rule, utf8 b.body, place S r⟩

/-- A part of a chunk template, step by step. -/
theorem read_eq (size : Nat) (s : Text) :
    ChunkPart.read size s =
      (ChunkPart.readHead s).bind fun p => (after? ['{', '{'] p.2.2).bind fun t =>
        match cutAtDouble? 0 t with
        | none => some (.unterminated p.1 (size - byteSize s), s.tail)
        | some q => some (.block ⟨p.1, p.2.1, q.1⟩, q.2) := by
  rw [ChunkPart.read]
  cases ChunkPart.readHead s with
  | none => rfl
  | some p =>
    obtain ⟨stage, rule, r⟩ := p
    simp only [Option.bind_some]
    cases hafter : after? ['{', '{'] r with
    | none =>
      have hnone : doubleBlock? r = none := by
        unfold doubleBlock?
        split
        · rename_i t
          rw [show '{' :: '{' :: t = ['{', '{'] ++ t from rfl, after?_append] at hafter
          cases hafter
        · rfl
      rw [hnone]
      rfl
    | some t =>
      rw [after?_eq_some_iff.1 hafter]
      simp only [Option.bind_some, List.cons_append, List.nil_append, doubleBlock?]
      cases cutAtDouble? 0 t <;> rfl

/-- **The stage block at a place.** -/
theorem readStageBlock_place (h : '@' :: s <:+ S) :
    (readStageBlock (utf8 S) (place S ('@' :: s))).run =
      .ok ((ChunkPart.read (byteSize S) ('@' :: s)).map (encodedPart S)) := by
  rw [readStageBlock, read_eq]
  refine Reading.run_bind_map (readHead_place h) ?_
  rintro ⟨stage, rule, r⟩ hhead
  obtain ⟨t, ht, hr⟩ := ChunkPart.readHead_suffix hhead
  have hrS : r <:+ S := by
    obtain rfl := (List.cons.inj ht).2
    exact hr.trans ((List.suffix_cons _ _).trans h)
  refine Reading.run_bind_map (readPrefix_place (by decide) hrS) ?_
  intro t hafter
  have htS : t <:+ S := (after?_suffix hafter).trans hrS
  rw [Reading.run_lift_bind (findDoubleClose_place htS)]
  cases hcut : cutAtDouble? 0 t with
  | none => rfl
  | some q =>
    obtain ⟨body, r'⟩ := q
    have htext : t = body ++ '}' :: '}' :: r' := by
      have := doubleBlock?_eq_append (s := '{' :: '{' :: t) (congrArg some hcut)
      simpa using this
    have hend : '}' :: '}' :: r' <:+ S := (List.suffix_append body _).trans (htext ▸ htS)
    have hslice : slice (utf8 S) (place S t) (place S ('}' :: '}' :: r')) = .ok (utf8 body) := by
      rw [htext]
      exact slice_place (htext ▸ htS)
    have hplace : place S ('}' :: '}' :: r') + 2 = place S r' := place_append (t := ['}', '}']) hend
    simp only [placeOfDouble, Option.map_some]
    rw [Reading.run_lift_bind hslice, hplace]
    rfl

/-! ### What a template holds -/

namespace ParsedTemplate

/-- The content of a template in bytes. -/
def ofContent (content : ChunkContent) : ParsedTemplate where
  code stage := utf8 (ChunkContent.codeOf content.blocks stage)
  order stage := (ChunkContent.block? content.blocks stage).bind StageBlock.order
  shared := utf8 content.shared
  defects := content.defects

/-- What parts of a template hold. -/
def ofParts (parts : List ChunkPart) : ParsedTemplate :=
  ofContent ⟨[], parts.filterMap ChunkPart.block?, ChunkContent.defectsOf [] parts⟩

/-- The block of a stage among blocks with one more. -/
theorem block?_concat (blocks : List StageBlock) (b : StageBlock) :
    ChunkContent.block? (blocks ++ [b]) =
      Function.update (ChunkContent.block? blocks) b.stage (some b) := by
  funext stage
  rw [ChunkContent.block?, List.filter_append, Function.update_apply]
  by_cases h : stage = b.stage
  · simp [h]
  · simp [h, Ne.symm h, ChunkContent.block?]

/-- Further parts have their own defects. -/
theorem defectsOf_append (earlier : List StageBlock) (front back : List ChunkPart) :
    ChunkContent.defectsOf earlier (front ++ back) =
      ChunkContent.defectsOf earlier front ++
        ChunkContent.defectsOf (earlier ++ front.filterMap ChunkPart.block?) back := by
  induction front generalizing earlier with
  | nil => simp [ChunkContent.defectsOf]
  | cons part front ih =>
    cases part with
    | block b =>
      have hblocks : (ChunkPart.block b :: front).filterMap ChunkPart.block? =
          b :: front.filterMap ChunkPart.block? := rfl
      rw [List.cons_append, ChunkContent.defectsOf, ih, ChunkContent.defectsOf, hblocks,
        List.append_assoc, List.append_assoc, List.singleton_append]
    | unterminated stage offset =>
      rw [List.cons_append, ChunkContent.defectsOf, ih, ChunkContent.defectsOf, List.cons_append,
        List.filterMap_cons_none (by rfl)]

/-- What a template holds with one more part. -/
def add (parsed : ParsedTemplate) : ChunkPart → ParsedTemplate
  | .block b => { parsed with
      code := Function.update parsed.code b.stage (utf8 b.code)
      order := Function.update parsed.order b.stage b.order
      defects := parsed.defects
        ++ (if parsed.code b.stage = [] then [] else [.duplicateBlock b.stage])
        ++ (if OrderRule.parse? b.rule = none then [.unknownOrderRule b.stage (.ofList (trim b.rule))]
          else []) }
  | .unterminated stage offset =>
    { parsed with defects := parsed.defects ++ [.unterminatedBlock stage offset] }

/-- Storing a block in bytes adds the block to what the template holds. -/
theorem store_utf8 (parsed : ParsedTemplate) (b : StageBlock) (stop : Nat) :
    parsed.store ⟨b.stage, utf8 b.rule, utf8 b.body, stop⟩ = .ok (parsed.add (.block b)) := by
  simp only [store, text_utf8, bind, Except.bind]
  rfl

/-- One more part behind the others is added to what they hold. -/
theorem add_ofParts (parts : List ChunkPart) (part : ChunkPart) :
    (ofParts parts).add part = ofParts (parts ++ [part]) := by
  cases part with
  | block b =>
    have hblocks : (parts ++ [ChunkPart.block b]).filterMap ChunkPart.block? =
        parts.filterMap ChunkPart.block? ++ [b] := by
      rw [List.filterMap_append]
      rfl
    simp only [add, ofParts, ofContent, defectsOf_append, hblocks, ChunkContent.codeOf, block?_concat,
      mk.injEq]
    refine ⟨?_, ?_, trivial, ?_⟩
    · funext stage
      by_cases h : stage = b.stage <;> simp [h]
    · funext stage
      by_cases h : stage = b.stage <;> simp [h]
    · simp only [ChunkContent.defectsOf, ChunkContent.defectsOfBlock, ChunkContent.codeOf,
        utf8_eq_nil_iff, List.append_nil, List.nil_append, List.append_assoc]
      rfl
  | unterminated stage offset =>
    have hblocks : (parts ++ [ChunkPart.unterminated stage offset]).filterMap ChunkPart.block? =
        parts.filterMap ChunkPart.block? := by
      rw [List.filterMap_append]
      exact List.append_nil _
    rw [ofParts, ofParts, hblocks, defectsOf_append]
    rfl

/-- **What parts hold**, added one after the other. -/
theorem foldl_add (parts earlier : List ChunkPart) :
    parts.foldl add (ofParts earlier) = ofParts (earlier ++ parts) := by
  induction parts generalizing earlier with
  | nil => rw [List.foldl_nil, List.append_nil]
  | cons part parts ih =>
    rw [List.foldl_cons, add_ofParts, ih, List.append_assoc, List.singleton_append]

end ParsedTemplate

/-- Where another character stands there is no part of a template. -/
theorem read_of_ne {c : Char} (hc : c ≠ '@') (size : Nat) (s : Text) :
    ChunkPart.read size (c :: s) = none := by
  refine Option.eq_none_iff_forall_ne_some.2 ?_
  rintro ⟨part, r⟩ h
  obtain ⟨⟨stage, rule, u⟩, hp, -⟩ := Option.bind_eq_some_iff.1 ((read_eq size _).symm.trans h)
  obtain ⟨t, ht, -⟩ := ChunkPart.readHead_suffix hp
  exact hc (List.cons.inj ht).1

/-- Behind the `@` of a block that is never closed reading goes on. -/
theorem eq_of_read_unterminated {size offset : Nat} {c : Char} {stage : Stage}
    (h : ChunkPart.read size (c :: s) = some (.unterminated stage offset, r)) : r = s := by
  rw [ChunkPart.read] at h
  split at h
  · cases h
  · split at h
    · cases h
    · exact (Prod.mk.inj (Option.some.inj h)).2.symm
    · cases h

/-- **What the bytes of a template hold** is its content. Nothing goes wrong.

**Proof sketch.** The rewriting goes along the pieces of the template. It puts out those that are shared,
and adds the others, which are the parts, to what the template holds. -/
theorem parseTemplate_utf8 (S : Text) :
    parseTemplate (utf8 S) = .ok (.ofContent (ChunkContent.parse S)) := by
  have hrewrites : Rewrites S (findPart (utf8 S))
      (fun s => (pieces (ChunkPart.reader (byteSize S)) s).flatMap ChunkContent.sharedText)
      (fun parsed s => (items (ChunkPart.reader (byteSize S)) s).foldl ParsedTemplate.add parsed) := by
    refine ⟨⟨by simp [pieces_nil], fun _ => by simp⟩, ?_, ?_, ?_, ?_⟩
    · -- bytes outside ASCII are shared
      intro i b parsed _ hb
      rw [findPart, if_neg (ne_ascii_of_high hb (by decide))]
      rfl
    · -- so are characters outside ASCII
      intro c t hc hcomment
      have hread : (ChunkPart.reader (byteSize S)).read (c :: t) = none :=
        read_of_ne (by rintro rfl; exact absurd hc (by decide)) _ t
      refine ⟨?_, fun parsed => by simp only [items_of_unread hcomment hread]⟩
      simp only [pieces_of_unread hcomment hread]
      rfl
    · -- so are comments
      intro t u r hcomment
      refine ⟨?_, fun parsed => by simp only [items_of_comment? hcomment]⟩
      simp only [pieces_of_comment? hcomment]
      rfl
    · -- an ASCII character; only `@` may start a block
      intro c t parsed hc hs hcomment
      by_cases hat : c = '@'
      · subst hat
        have hplace := readStageBlock_place hs
        cases hread : ChunkPart.read (byteSize S) ('@' :: t) with
        | none =>
          rw [hread] at hplace
          refine .inl ⟨parsed, ?_, ?_⟩
          · rw [findPart, if_pos rfl, hplace]
            rfl
          · rw [pieces_of_unread hcomment hread, items_of_unread hcomment hread]
            exact ⟨rfl, rfl⟩
        | some p =>
          obtain ⟨part, r⟩ := p
          rw [hread] at hplace
          have hpieces := pieces_of_read (R := ChunkPart.reader (byteSize S)) hcomment hread
          have hitems := items_of_read (R := ChunkPart.reader (byteSize S)) hcomment hread
          cases part with
          | unterminated stage offset =>
            obtain rfl := eq_of_read_unterminated hread
            refine .inl ⟨parsed.add (.unterminated stage offset), ?_, ?_⟩
            · rw [findPart, if_pos rfl, hplace]
              rfl
            · rw [hpieces, hitems, List.flatMap_cons, List.foldl_cons]
              refine ⟨?_, rfl⟩
              simp [ChunkContent.sharedText, Piece.text]
          | block b =>
            obtain ⟨_, _, heq, hr⟩ := (ChunkPart.reader (byteSize S)).read_suffix hread
            obtain rfl := (List.cons.inj heq).2
            refine .inr ⟨[], r, parsed.add (.block b), hr, ?_, ?_⟩
            · rw [findPart, if_pos rfl, hplace]
              simp only [Option.map_some, encodedPart, bind, Except.bind, ParsedTemplate.store_utf8]
              rfl
            · rw [hpieces, hitems]
              exact ⟨rfl, rfl⟩
      · have hread : (ChunkPart.reader (byteSize S)).read (c :: t) = none := read_of_ne hat _ t
        refine .inl ⟨parsed, ?_, ?_⟩
        · rw [findPart, if_neg (mt (ascii_inj (by decide) hc).1 hat)]
          rfl
        · rw [pieces_of_unread hcomment hread, items_of_unread hcomment hread]
          exact ⟨rfl, rfl⟩
  have hempty : (⟨fun _ => [], fun _ => none, [], []⟩ : ParsedTemplate) = .ofParts [] := rfl
  rw [parseTemplate, hrewrites.rewrite_eq, hempty, ParsedTemplate.foldl_add]
  simp only [bind, Except.bind, text_utf8, List.nil_append]
  rfl

end Bytewise

end ShaderWeave
