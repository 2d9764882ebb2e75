import ShaderWeave.Proofs.Chunk.Includes

set_option autoImplicit false

/-!
# Templates cut at stage blocks

Every template, well formed or not, is cut at its stage blocks into segments: what stands between the
blocks is shared. An `@` in a segment starts no block; where it opens one that is never closed, that is a
defect.

## Main definitions

* `ShaderWeave.Partition` — a template cut at stage blocks.
* `ShaderWeave.Partition.marks` — the `@` outside comments in the segments.

## Main results

* `ShaderWeave.Partition.exists_cuts` — a text is cut as it is read.
* `ShaderWeave.Partition.lexemes_text` — the lexemes of a template are those of its parts.
* `ShaderWeave.Chunk.ofTemplate_partition` — the chunk of any template.
-/

namespace ShaderWeave

open Text Scan

namespace ChunkPart

/-- The stage of an unclosed block, and where it is opened. -/
def opening? : ChunkPart → Option (Stage × ℕ)
  | .unterminated stage offset => some (stage, offset)
  | .block _ => none

end ChunkPart

/-! ### Cuts -/

/-- **A template cut at stage blocks**: segments with a block behind each, and a last segment. -/
inductive Partition where
  | last (s : Text)
  | part (s : Text) (b : DelimitedBlock) (rest : Partition)

namespace Partition

/-- The template that is cut. -/
def text : Partition → Text
  | last s => s
  | part s b rest => s ++ (b.text ++ rest.text)

/-- The segments, put together. -/
def shared : Partition → Text
  | last s => s
  | part s _ rest => s ++ rest.shared

/-- The blocks, in order. -/
def blocks : Partition → List DelimitedBlock
  | last _ => []
  | part _ b rest => b :: rest.blocks

/-- **Blocks start outside comments**: the comments of the segment in front of each are closed. -/
def StartsOutside : Partition → Prop
  | last _ => True
  | part s _ rest => CommentsClosed s ∧ rest.StartsOutside

/-- The `@` among lexemes behind `n` bytes and in front of `v`: for each the number of bytes in front of
it, and the text from it on. -/
def marksIn (n : ℕ) (v : Text) : List Lexeme → List (ℕ × Text)
  | [] => []
  | l :: ls =>
    (if l = .live '@' then [(n, source (l :: ls) ++ v)] else []) ++
      marksIn (n + byteSize l.text) v ls

/-- **The `@` outside comments in the segments**, behind `n` bytes: for each the number of bytes in front
of it, and the template from it on. -/
def marks (n : ℕ) : Partition → List (ℕ × Text)
  | last s => marksIn n [] (lexemes s)
  | part s b rest =>
    marksIn n (b.text ++ rest.text) (lexemes s) ++ rest.marks (n + byteSize (s ++ b.text))

/-- The first segment. -/
def first : Partition → Text
  | last s => s
  | part s _ _ => s

/-- More text in front of the first segment. -/
def prepend (u : Text) : Partition → Partition
  | last s => last (u ++ s)
  | part s b rest => part (u ++ s) b rest

variable {p : Partition} {u : Text}

/-- The text of a cut with more in front has it in front. -/
@[simp] theorem text_prepend : (p.prepend u).text = u ++ p.text := by
  cases p <;> simp [prepend, text]

/-- The shared text of a cut with more in front has it in front. -/
@[simp] theorem shared_prepend : (p.prepend u).shared = u ++ p.shared := by
  cases p <;> simp [prepend, shared]

/-- More text in front of a cut leaves its blocks. -/
@[simp] theorem blocks_prepend : (p.prepend u).blocks = p.blocks := by
  cases p <;> rfl

/-- A cut text starts with its first segment. -/
theorem first_prefix_text : p.first <+: p.text := by
  cases p with
  | last s => exact List.prefix_rfl
  | part s b rest => exact List.prefix_append _ _

/-- The marks behind a lexeme that is put in front. -/
theorem marks_prepend {l : Lexeme} (h : lexemes (l.text ++ p.first) = l :: lexemes p.first) (n : ℕ) :
    (p.prepend l.text).marks n =
      (if l = .live '@' then [(n, l.text ++ p.text)] else []) ++ p.marks (n + byteSize l.text) := by
  cases p with
  | last s =>
    rw [first] at h
    simp [prepend, marks, h, marksIn, text, source_lexemes]
  | part s b rest =>
    rw [first] at h
    simp [prepend, marks, h, marksIn, text, source_lexemes, Nat.add_assoc]

/-- **A lexeme in front of a cut text**: with the first segment behind it, it is the first lexeme there,
and it is closed if it is a comment and anything follows. -/
structure Precedes (l : Lexeme) (p : Partition) : Prop where
  lexemes_eq : lexemes (l.text ++ p.first) = l :: lexemes p.first
  closed : ∀ t, l = .comment t → p.text ≠ [] → ∃ c : ClosedComment, c.text = t

/-- A comment that is read in front of a cut text precedes it. -/
theorem precedes_comment {t : Text} (h : comment? (t ++ p.text) = some (t, p.text)) :
    Precedes (.comment t) p := by
  have hclosed : p.text ≠ [] → ∃ c : ClosedComment, c.text = t := exists_closed_of_comment? h
  refine ⟨?_, fun t' ht' hne => by cases ht'; exact hclosed hne⟩
  rcases eq_or_ne p.text [] with hnil | hne
  · have hfirst : p.first = [] := List.prefix_nil.1 (hnil ▸ p.first_prefix_text)
    rw [hnil] at h
    rw [hfirst]
    exact lexemes_of_comment? h
  · obtain ⟨c, rfl⟩ := hclosed hne
    exact lexemes_closed_append c p.first

/-- A character at which no comment starts precedes the cut text behind it. -/
theorem precedes_live {c : Char} (h : comment? (c :: p.text) = none) : Precedes (.live c) p := by
  refine ⟨?_, fun t ht => by cases ht⟩
  obtain ⟨v, hv⟩ := p.first_prefix_text
  rw [← hv, ← List.cons_append] at h
  exact lexemes_of_live (comment?_of_append h)

/-- Blocks still start outside comments behind a lexeme that is put in front. -/
theorem startsOutside_prepend {l : Lexeme} (h : Precedes l p) (hp : p.StartsOutside) :
    (p.prepend l.text).StartsOutside := by
  cases p with
  | last s => trivial
  | part s b rest =>
    refine ⟨fun t ht => ?_, hp.2⟩
    have hlexemes : lexemes (l.text ++ s) = l :: lexemes s := h.lexemes_eq
    rw [hlexemes, List.mem_cons] at ht
    rcases ht with rfl | ht
    · exact h.closed t rfl (by simp [text, b.text_append])
    · exact hp.1 t ht

/-! ### Cutting as it is read -/

/-- **A cut of a text as it is read**, behind `n` bytes of a template of `size` bytes: the segments are
the shared text, and the blocks those that are read; no `@` in a segment starts a block, and those that
open an unclosed one are found, in order. -/
structure Cuts (size n : ℕ) (s : Text) (p : Partition) : Prop where
  text_eq : p.text = s
  outside : p.StartsOutside
  shared_eq : (pieces (ChunkPart.reader size) s).flatMap ChunkContent.sharedText = p.shared
  blocks_eq : (items (ChunkPart.reader size) s).filterMap ChunkPart.block? =
    p.blocks.map DelimitedBlock.read
  unblocked : ∀ q ∈ p.marks n, ∀ d : DelimitedBlock, ¬d.text <+: q.2
  mem_openings : ∀ stage offset,
    (stage, offset) ∈ (items (ChunkPart.reader size) s).filterMap ChunkPart.opening? ↔
      ∃ t, (offset, t) ∈ p.marks n ∧ OpensUnclosed stage t
  ordered : ((items (ChunkPart.reader size) s).filterMap ChunkPart.opening?).Pairwise (·.2 < ·.2)
  behind : ∀ q ∈ p.marks n, n ≤ q.1

variable {size n : ℕ} {s r : Text}

/-- The empty text is cut into one empty segment. -/
theorem cuts_nil : Cuts size n [] (last []) := by
  have hitems : items (ChunkPart.reader size) [] = [] := by simp [items, pieces]
  have hmarks : (last []).marks n = [] := by simp [marks, lexemes, marksIn]
  refine ⟨rfl, trivial, by simp [pieces, shared], ?_, ?_, ?_, ?_, ?_⟩
  all_goals simp [hitems, hmarks, blocks]

/-- A comment is passed over. -/
theorem Cuts.comment {t : Text} (hc : comment? s = some (t, r))
    (h : Cuts size (n + byteSize t) r p) : Cuts size n s (p.prepend t) := by
  obtain rfl := h.text_eq
  obtain ⟨rfl, -⟩ := comment?_eq_append hc
  have hprecedes := precedes_comment hc
  have hitems := items_of_comment? (R := ChunkPart.reader size) hc
  have hmarks : (p.prepend t).marks n = p.marks (n + byteSize t) := by
    rw [show t = (Lexeme.comment t).text from rfl, marks_prepend hprecedes.lexemes_eq]
    simp
  refine ⟨text_prepend, startsOutside_prepend hprecedes h.outside, ?_, ?_, ?_, ?_, ?_, ?_⟩
  · rw [pieces_of_comment? hc, List.flatMap_cons, h.shared_eq, shared_prepend]
    rfl
  · rw [hitems, blocks_prepend, h.blocks_eq]
  · rw [hmarks]
    exact h.unblocked
  · rw [hitems, hmarks]
    exact h.mem_openings
  · rw [hitems]
    exact h.ordered
  · rw [hmarks]
    exact fun q hq => Nat.le_of_add_right_le (h.behind q hq)

/-- A block is cut out. -/
theorem Cuts.block {d : DelimitedBlock} (hc : comment? s = none)
    (hread : ChunkPart.read size s = some (.block d.read, r)) (hs : s = d.text ++ r)
    (h : Cuts size (n + byteSize d.text) r p) : Cuts size n s (part [] d p) := by
  obtain rfl := h.text_eq
  have hitems := items_of_read (R := ChunkPart.reader size) hc hread
  have hmarks : (part [] d p).marks n = p.marks (n + byteSize d.text) := by
    simp [marks, lexemes, marksIn]
  refine ⟨hs.symm, ⟨complete_nil.commentsClosed, h.outside⟩, ?_, ?_, ?_, ?_, ?_, ?_⟩
  · rw [pieces_of_read (R := ChunkPart.reader size) hc hread, List.flatMap_cons, h.shared_eq]
    rfl
  · rw [hitems, List.filterMap_cons, h.blocks_eq]
    rfl
  · rw [hmarks]
    exact h.unblocked
  · rw [hitems, hmarks]
    exact h.mem_openings
  · rw [hitems]
    exact h.ordered
  · rw [hmarks]
    exact fun q hq => Nat.le_of_add_right_le (h.behind q hq)

/-- A text that opens an unclosed block starts with a mark. -/
theorem eq_at_of_opensUnclosed {c : Char} {stage : Stage} (h : OpensUnclosed stage (c :: r)) :
    c = '@' := by
  obtain ⟨head, t, -, heq, -⟩ := h
  exact (List.cons.inj heq).1

/-- **A character that starts no block is passed over**, with what it opens, if it opens anything. -/
theorem Cuts.live {c : Char} (opened : Option (Stage × ℕ)) (hc : comment? (c :: r) = none)
    (hshared : (pieces (ChunkPart.reader size) (c :: r)).flatMap ChunkContent.sharedText =
      c :: (pieces (ChunkPart.reader size) r).flatMap ChunkContent.sharedText)
    (hblocks : (items (ChunkPart.reader size) (c :: r)).filterMap ChunkPart.block? =
      (items (ChunkPart.reader size) r).filterMap ChunkPart.block?)
    (hopenings : (items (ChunkPart.reader size) (c :: r)).filterMap ChunkPart.opening? =
      opened.toList ++ (items (ChunkPart.reader size) r).filterMap ChunkPart.opening?)
    (hblock : ∀ d : DelimitedBlock, ¬d.text <+: c :: r)
    (hopened : ∀ stage offset,
      opened = some (stage, offset) ↔ offset = n ∧ OpensUnclosed stage (c :: r))
    (h : Cuts size (n + byteSize [c]) r p) : Cuts size n (c :: r) (p.prepend [c]) := by
  obtain rfl := h.text_eq
  have hprecedes := precedes_live hc
  -- the marks of the new cut are those of the old one, and this character if it is an `@`
  have hmarks : (p.prepend [c]).marks n =
      (if c = '@' then [(n, c :: p.text)] else []) ++ p.marks (n + byteSize [c]) := by
    rw [show [c] = (Lexeme.live c).text from rfl, marks_prepend hprecedes.lexemes_eq]
    simp [Lexeme.text]
  have hbehind : ∀ q ∈ p.marks (n + byteSize [c]), n < q.1 := fun q hq => by
    have := h.behind q hq
    have := byteSize_pos (s := [c]) (by simp)
    omega
  refine ⟨text_prepend, startsOutside_prepend hprecedes h.outside, ?_, ?_, ?_, ?_, ?_, ?_⟩
  · rw [hshared, h.shared_eq, shared_prepend, List.singleton_append]
  · rw [hblocks, blocks_prepend, h.blocks_eq]
  · intro q hq
    rw [hmarks, List.mem_append] at hq
    rcases hq with hq | hq
    · obtain ⟨-, rfl⟩ : c = '@' ∧ q = (n, c :: p.text) := by simpa using hq
      exact hblock
    · exact h.unblocked q hq
  · intro stage offset
    rw [hopenings, List.mem_append, Option.mem_toList, hopened, h.mem_openings,
      hmarks]
    constructor
    · rintro (⟨rfl, hopens⟩ | ⟨t, ht, hopens⟩)
      · exact ⟨_, List.mem_append_left _ (by simp [eq_at_of_opensUnclosed hopens]), hopens⟩
      · exact ⟨t, List.mem_append_right _ ht, hopens⟩
    · rintro ⟨t, ht, hopens⟩
      rcases List.mem_append.1 ht with ht | ht
      · obtain ⟨-, rfl, rfl⟩ : c = '@' ∧ offset = n ∧ t = c :: p.text := by simpa using ht
        exact .inl ⟨rfl, hopens⟩
      · exact .inr ⟨t, ht, hopens⟩
  · rw [hopenings, List.pairwise_append]
    refine ⟨by cases opened <;> simp, h.ordered, ?_⟩
    rintro ⟨stage, offset⟩ ho ⟨stage', offset'⟩ ho'
    obtain ⟨rfl, -⟩ := (hopened stage offset).1 (Option.mem_toList.1 ho)
    obtain ⟨t, ht, -⟩ := (h.mem_openings stage' offset').1 ho'
    exact hbehind _ ht
  · intro q hq
    rw [hmarks, List.mem_append] at hq
    rcases hq with hq | hq
    · obtain ⟨-, rfl⟩ : c = '@' ∧ q = (n, c :: p.text) := by simpa using hq
      exact le_rfl
    · exact (hbehind q hq).le

/-- The `@` of a block that is never closed is passed over, and found. -/
theorem Cuts.unterminated {stage : Stage} {offset : ℕ} (hsize : n + byteSize s = size)
    (hc : comment? s = none) (hread : ChunkPart.read size s = some (.unterminated stage offset, r))
    (h : Cuts size (n + byteSize ['@']) r p) : Cuts size n s (p.prepend ['@']) := by
  obtain ⟨hopens, hoffset, -⟩ := ChunkPart.read_eq_unterminated_iff.1 hread
  obtain rfl : offset = n := by omega
  have hitems := items_of_read (R := ChunkPart.reader size) hc hread
  have hpieces := pieces_of_read (R := ChunkPart.reader size) hc hread
  obtain rfl := ChunkPart.exists_of_read_unterminated hread
  refine h.live (some (stage, offset)) hc ?_ ?_ ?_ ?_ ?_
  · rw [hpieces, List.flatMap_cons]
    simp [ChunkContent.sharedText, Piece.text]
  · rw [hitems]
    rfl
  · rw [hitems]
    rfl
  · rintro d ⟨t, ht⟩
    rw [ChunkPart.read_eq_block_iff.2 ⟨d, ht.symm, rfl⟩] at hread
    cases hread
  · intro stage' offset'
    constructor
    · intro heq
      cases heq
      exact ⟨rfl, hopens⟩
    · rintro ⟨rfl, hopens'⟩
      rw [ChunkPart.read_eq_unterminated_iff.2 ⟨hopens', rfl, rfl⟩] at hread
      cases hread
      rfl

/-- A plain character is passed over. -/
theorem Cuts.plain {c : Char} (hc : comment? (c :: r) = none)
    (hread : ChunkPart.read size (c :: r) = none) (h : Cuts size (n + byteSize [c]) r p) :
    Cuts size n (c :: r) (p.prepend [c]) := by
  obtain ⟨hblock, hopens⟩ := ChunkPart.of_read_eq_none hread
  have hitems := items_of_unread (R := ChunkPart.reader size) hc hread
  refine h.live none hc ?_ ?_ ?_ hblock ?_
  · rw [pieces_of_unread (R := ChunkPart.reader size) hc hread]
    rfl
  · rw [hitems]
  · rw [hitems]
    rfl
  · intro stage offset
    simp [hopens stage]

/-- **A text is cut as it is read.**

**Proof sketch.** Along the pieces. A comment and a character that starts no block go in front of the
first segment of what follows; at a block a segment begins. -/
theorem exists_cuts (hsize : n + byteSize s = size) : ∃ p, Cuts size n s p := by
  have hrest : ∀ {n : ℕ} {t u : Text}, n + byteSize (t ++ u) = size →
      n + byteSize t + byteSize u = size := by
    intro n t u h
    rwa [byteSize_append, ← Nat.add_assoc] at h
  induction hlength : s.length using Nat.strong_induction_on generalizing s n with
  | _ m ih =>
  subst hlength
  cases s with
  | nil => exact ⟨last [], cuts_nil⟩
  | cons c s =>
    cases hc : comment? (c :: s) with
    | some found =>
      obtain ⟨t, r⟩ := found
      rw [(comment?_eq_append hc).1] at hsize
      obtain ⟨p, hp⟩ := ih _ (length_lt_of_comment? hc) (hrest hsize) rfl
      exact ⟨_, hp.comment hc⟩
    | none =>
      cases hread : ChunkPart.read size (c :: s) with
      | none =>
        obtain ⟨p, hp⟩ := ih s.length (Nat.lt_succ_self _) (hrest (t := [c]) hsize) rfl
        exact ⟨_, hp.plain hc hread⟩
      | some found =>
        obtain ⟨item, r⟩ := found
        have hlt := (ChunkPart.reader size).length_lt hread
        cases item with
        | block b =>
          obtain ⟨d, hs, rfl⟩ := ChunkPart.read_eq_block_iff.1 hread
          rw [hs] at hsize
          obtain ⟨p, hp⟩ := ih _ hlt (hrest hsize) rfl
          exact ⟨_, hp.block hc hread hs⟩
        | unterminated stage offset =>
          have hs := ChunkPart.exists_of_read_unterminated hread
          obtain ⟨p, hp⟩ := ih _ hlt (hrest (t := ['@']) (hs ▸ hsize)) rfl
          exact ⟨_, hp.unterminated hsize hc hread⟩

/-! ### The lexemes of a cut template -/

/-- The lexemes of the segments and the blocks, in order. -/
def lexemesOf : Partition → List Lexeme
  | last s => lexemes s
  | part s b rest => lexemes s ++ (lexemes b.text ++ rest.lexemesOf)

/-- A block is complete if there is no comment in its head. -/
theorem complete_block {b : DelimitedBlock} (h : isUncommented b.head.text = true) :
    Complete b.text := by
  have hbrace : ∀ {c : Char}, c = '{' ∨ c = '}' → Complete [c, c] := by
    rintro c (rfl | rfl)
    all_goals exact (complete_singleton (by decide)).append (complete_singleton (by decide))
  have hbody : Complete (b.body ++ ['}', '}']) :=
    b.isBody.closes.1.append_complete (by decide) (by decide) (hbrace (.inr rfl))
  exact (complete_of_isUncommented h).append ((hbrace (.inl rfl)).append hbody)

/-- **The lexemes of a template are those of its segments and blocks**, if there is no comment in the
head of a block. -/
theorem lexemes_text (h : p.StartsOutside)
    (hheads : ∀ b ∈ p.blocks, isUncommented b.head.text = true) : lexemes p.text = p.lexemesOf := by
  induction p with
  | last s => rfl
  | part s b rest ih =>
    obtain ⟨hclosed, hrest⟩ := h
    obtain ⟨t, ht⟩ := b.exists_text_eq
    have hblock : Complete b.text := complete_block (hheads b List.mem_cons_self)
    have hcut : lexemes (s ++ (b.text ++ rest.text)) = lexemes s ++ lexemes (b.text ++ rest.text) := by
      rw [ht]
      exact lexemes_append_cons hclosed (by decide) (by decide) _
    rw [text, lexemesOf, hcut, hblock, ih hrest fun b hb => hheads b (List.mem_cons_of_mem _ hb)]

end Partition

/-! ### The chunk of any template -/

/-- The stage of a block that is never closed, and where it is opened. -/
def ChunkDefect.opening? : ChunkDefect → Option (Stage × ℕ)
  | .unterminatedBlock stage offset => some (stage, offset)
  | .unknownOrderRule .. => none
  | .duplicateBlock _ => none

namespace ChunkContent

/-- A block that is read has no defect of a block that is never closed. -/
theorem filterMap_opening?_defectsOfBlock (earlier : List StageBlock) (b : StageBlock) :
    (defectsOfBlock earlier b).filterMap ChunkDefect.opening? = [] := by
  rw [defectsOfBlock, List.filterMap_append]
  split <;> split <;> rfl

/-- The defects have the blocks that are never closed, in order. -/
theorem filterMap_opening?_defectsOf (earlier : List StageBlock) (ps : List ChunkPart) :
    (defectsOf earlier ps).filterMap ChunkDefect.opening? = ps.filterMap ChunkPart.opening? := by
  induction ps generalizing earlier with
  | nil => rfl
  | cons p ps ih =>
    cases p with
    | block b =>
      rw [defectsOf, List.filterMap_append, filterMap_opening?_defectsOfBlock, ih]
      rfl
    | unterminated stage offset =>
      rw [defectsOf, List.filterMap_cons, List.filterMap_cons, ih]
      rfl

end ChunkContent

namespace Chunk

/-- **The chunk of any template**: the template is cut at its stage blocks, each of which starts outside
comments and is closed by the first `}}` at depth zero outside comments. No `@` outside comments between
the blocks starts one. What stands between them is shared, and the last block of a stage has its code. A
block that is never closed is found at each `@` between the blocks that opens one, in order.

The argument of a block is not searched for comments. Where no head has one, comments are those of the
whole template. -/
theorem ofTemplate_partition (name template : String) :
    let c := Chunk.ofTemplate name template
    ∃ p : Partition, p.text = template.toList ∧ p.StartsOutside ∧
      ((∀ b ∈ p.blocks, isUncommented b.head.text = true) →
        lexemes template.toList = p.lexemesOf) ∧
      (∀ q ∈ p.marks 0, ∀ d : DelimitedBlock, ¬d.text <+: q.2) ∧
      c.shared = trim p.shared ∧
      (∀ stage, c.code stage =
        (((p.blocks.filter (·.stage = stage)).getLast?).map fun b => trim b.body).getD []) ∧
      (∀ stage offset, .unterminatedBlock stage offset ∈ c.defects ↔
        ∃ t, (offset, t) ∈ p.marks 0 ∧ OpensUnclosed stage t) ∧
      (c.defects.filterMap ChunkDefect.opening?).Pairwise (·.2 < ·.2) := by
  intro c
  obtain ⟨p, hp⟩ := Partition.exists_cuts (Nat.zero_add (byteSize template.toList))
  have hopenings : c.defects.filterMap ChunkDefect.opening? =
      (items (ChunkPart.reader (byteSize template.toList)) template.toList).filterMap
        ChunkPart.opening? :=
    ChunkContent.filterMap_opening?_defectsOf _ _
  refine ⟨p, hp.text_eq, hp.outside, ?_, hp.unblocked, ?_, ?_, ?_, hopenings ▸ hp.ordered⟩
  · intro hheads
    rw [← hp.text_eq, Partition.lexemes_text hp.outside hheads]
  · rw [← hp.shared_eq]
    rfl
  · intro stage
    have hblocks : c.content.blocks = p.blocks.map DelimitedBlock.read := hp.blocks_eq
    rw [code, hblocks, ChunkContent.codeOf, ChunkContent.block?, List.filter_map,
      List.getLast?_map, Option.map_map]
    rfl
  · intro stage offset
    rw [← hp.mem_openings, ← hopenings, List.mem_filterMap]
    constructor
    · exact fun h => ⟨_, h, rfl⟩
    · rintro ⟨d, hd, heq⟩
      cases d with
      | unterminatedBlock stage' offset' =>
        cases heq
        exact hd
      | unknownOrderRule stage' rule => cases heq
      | duplicateBlock stage' => cases heq

/-- A block that is never closed takes nothing from one that is opened in it. -/
example :
    let c := Chunk.ofTemplate "shade" "@vertex \x7b\x7b a @fragment \x7b\x7b b \x7d\x7d"
    c.shared = "@vertex \x7b\x7b a".toList ∧ c.code .fragment = ['b'] ∧
      c.defects = [.unterminatedBlock .vertex 0] := by
  decide +kernel

end Chunk

end ShaderWeave
