import ShaderWeave.Chunk.Basic
import ShaderWeave.Proofs.Chunk.Block
import ShaderWeave.Proofs.Include.Place

set_option autoImplicit false

/-!
# Directives of chunks

The names that a chunk includes are those of its template. Directives are taken out later, of the
shared text and the codes, which are cut out of the template and trimmed. So a line that loses a part
in the cut, or gets one, may be a directive for one of them only. Where no such line is a directive, and
comments are cut as they stand, each directive that is taken out has its name among those of the
template.

## Main definitions

* `ShaderWeave.ChunkContent.CleanCut` — a stage block whose borders are no directives.
* `ShaderWeave.ChunkContent.CleanCuts` — a template all of whose stage blocks are cut out so.

## Main results

* `ShaderWeave.ChunkPart.exists_of_read_block` — the text of a stage block.
* `ShaderWeave.Scan.exists_of_pieces_eq_append` — the text in front of some pieces.
* `ShaderWeave.ChunkContent.isLive_of_shared` — directives of the shared text are directives of the
  template.
* `ShaderWeave.Chunk.includes_of_directive` — no directive is taken out of a chunk without being
  followed.
-/

namespace ShaderWeave

open Text Scan

/-! ### The text of pieces -/

namespace Scan

variable {α : Type} {R : Reader α}

/-- An item was read from its text. -/
theorem exists_read_of_mem_pieces {s raw : Text} {a : α} (h : .item raw a ∈ pieces R s) :
    ∃ r, R.read (raw ++ r) = some (a, r) := by
  fun_induction pieces R s with
  | case1 => cases h
  | case2 c s t r hcomment ih => exact ih ((List.mem_cons.1 h).resolve_left (by simp))
  | case3 c s _ b r hread ih =>
    rcases List.mem_cons.1 h with heq | h
    · cases heq
      exact ⟨r, by rw [R.take_append hread, hread]⟩
    · exact ih h
  | case4 c s _ _ ih => exact ih ((List.mem_cons.1 h).resolve_left (by simp))

/-- **The text in front of some pieces**: what follows it is cut into these pieces, and its comments
are closed if the texts of its items are complete. -/
theorem exists_of_pieces_eq_append {s : Text} {front back : List (Piece α)}
    (h : pieces R s = front ++ back) :
    ∃ r, s = front.flatMap Piece.text ++ r ∧ pieces R r = back ∧
      (back ≠ [] → (∀ raw a, .item raw a ∈ front → Complete raw) →
        CommentsClosed (front.flatMap Piece.text)) := by
  induction front generalizing s with
  | nil => exact ⟨s, rfl, h, fun _ _ => complete_nil.commentsClosed⟩
  | cons p front ih =>
    obtain ⟨c, s, rfl⟩ : ∃ c t, s = c :: t := by
      refine List.exists_cons_of_ne_nil ?_
      rintro rfl
      simp [pieces] at h
    rw [List.flatMap_cons]
    cases hcomment : comment? (c :: s) with
    | some q =>
      obtain ⟨t, r⟩ := q
      rw [pieces_of_comment? hcomment, List.cons_append] at h
      obtain ⟨rfl, hrest⟩ := List.cons.inj h
      obtain ⟨r', rfl, hback, hclosed⟩ := ih hrest
      refine ⟨r', by rw [(comment?_eq_append hcomment).1]; simp [Piece.text], hback,
        fun hne hitems => ?_⟩
      -- an open comment would be the last piece
      obtain ⟨closed, rfl⟩ := exists_closed_of_comment? hcomment fun hnil => by
        simp only [List.append_eq_nil_iff] at hnil
        exact hne (by rw [← hback, hnil.2, pieces])
      exact (complete_closed closed).append_commentsClosed
        (hclosed hne fun raw a hmem => hitems raw a (List.mem_cons_of_mem _ hmem))
    | none =>
      cases hread : R.read (c :: s) with
      | some q =>
        obtain ⟨a, r⟩ := q
        rw [pieces_of_read hcomment hread, List.cons_append] at h
        obtain ⟨rfl, hrest⟩ := List.cons.inj h
        obtain ⟨r', hr, hback, hclosed⟩ := ih hrest
        refine ⟨r', ?_, hback, fun hne hitems => ?_⟩
        · rw [Piece.text, List.append_assoc, ← hr, R.take_append hread]
        · exact (hitems _ _ List.mem_cons_self).append_commentsClosed
            (hclosed hne fun raw a hmem => hitems raw a (List.mem_cons_of_mem _ hmem))
      | none =>
        rw [pieces_of_unread hcomment hread, List.cons_append] at h
        obtain ⟨rfl, hrest⟩ := List.cons.inj h
        obtain ⟨r', rfl, hback, hclosed⟩ := ih hrest
        rw [← List.cons_append] at hcomment
        exact ⟨r', rfl, hback, fun hne hitems =>
          (hclosed hne fun raw a hmem => hitems raw a (List.mem_cons_of_mem _ hmem)).live_cons
            (comment?_of_append hcomment)⟩

end Scan

/-! ### Stage blocks -/

namespace ChunkPart

/-- **The text of a stage block** that is read: what stands in front of its body, the body, and what
closes it. -/
theorem exists_of_read_block {size : Nat} {s r : Text} {b : StageBlock}
    (h : read size s = some (.block b, r)) :
    ∃ head, s = '@' :: (head ++ (b.body ++ '}' :: '}' :: r)) ∧ CommentsClosed b.body ∧
      (isUncommented b.rule = true → Complete ('@' :: head)) := by
  obtain ⟨d, rfl, rfl⟩ := read_eq_block_iff.1 h
  obtain ⟨t, ht⟩ := d.head.exists_text_eq
  refine ⟨t ++ ['{', '{'], ?_, d.isBody.closes.1, fun hrule => ?_⟩
  · rw [d.text_append, ht]
    simp [DelimitedBlock.read]
  · rw [← List.cons_append, ← ht]
    exact (d.head.complete hrule).append (complete_of_isUncommented (by decide))

/-- The text of a block that is never closed is its `@`. -/
theorem exists_of_read_unterminated {size offset : Nat} {s r : Text} {stage : Stage}
    (h : read size s = some (.unterminated stage offset, r)) : s = '@' :: r := by
  unfold read at h
  split at h
  · cases h
  · rename_i hhead
    obtain ⟨t, rfl, -⟩ := readHead_suffix hhead
    split at h
    · cases h
    · cases h
      rfl
    · cases h

/-- The text of a part is complete, if no comment starts in the argument of a block. -/
theorem complete_of_mem_pieces {size : Nat} {s raw : Text} {part : ChunkPart}
    (h : .item raw part ∈ pieces (reader size) s)
    (hrule : ∀ b, part = .block b → isUncommented b.rule = true) : Complete raw := by
  obtain ⟨r, hread⟩ := exists_read_of_mem_pieces h
  cases part with
  | block b =>
    obtain ⟨head, heq, hbody, hcomplete⟩ := exists_of_read_block hread
    have hraw : raw = ('@' :: head) ++ (b.body ++ ['}', '}']) := by
      have : raw ++ r = ('@' :: head) ++ (b.body ++ ['}', '}']) ++ r := by simpa using heq
      exact List.append_cancel_right this
    rw [hraw]
    exact (hcomplete (hrule b rfl)).append (hbody.append_complete (by decide) (by decide)
      (complete_of_isUncommented (by decide)))
  | unterminated stage offset =>
    have hraw : raw = ['@'] := List.append_cancel_right (exists_of_read_unterminated hread)
    rw [hraw]
    exact complete_singleton (by decide)

end ChunkPart

/-! ### Cuts -/

namespace ChunkContent

open Include

/-- **A stage block that is cut out cleanly**, with the shared text in front of it and behind it: no
comment starts in its argument or is put together by the cut, and neither the lines at the ends of its
body nor the line that is put together have the form of a directive. -/
structure CleanCut (before : Text) (b : StageBlock) (behind : Text) : Prop where
  rule : isUncommented b.rule = true
  border : (lexemes before).getLast? ≠ some (.live '/')
  pasted : name? (lastLine before ++ firstLine behind) = none
  first : name? (firstLine b.body) = none
  last : name? (lastLine b.body) = none

/-- **A template whose stage blocks are cut out cleanly.** -/
def CleanCuts (template : Text) : Prop :=
  ∀ front raw b back,
    pieces (ChunkPart.reader (byteSize template)) template = front ++ .item raw (.block b) :: back →
    CleanCut (front.flatMap sharedText) b (back.flatMap sharedText)

/-- Whether a stage block is cut out cleanly can be computed. -/
instance (before : Text) (b : StageBlock) (behind : Text) : Decidable (CleanCut before b behind) :=
  decidable_of_iff
    (isUncommented b.rule = true ∧ (lexemes before).getLast? ≠ some (.live '/') ∧
      name? (lastLine before ++ firstLine behind) = none ∧ name? (firstLine b.body) = none ∧
      name? (lastLine b.body) = none)
    ⟨fun ⟨h₁, h₂, h₃, h₄, h₅⟩ => ⟨h₁, h₂, h₃, h₄, h₅⟩, fun ⟨h₁, h₂, h₃, h₄, h₅⟩ => ⟨h₁, h₂, h₃, h₄, h₅⟩⟩

/-- Whether the stage blocks among pieces are cut out cleanly, behind the given shared text. -/
def areCleanCuts (before : Text) : List (Piece ChunkPart) → Bool
  | [] => true
  | p :: ps =>
    ((p.value?.bind ChunkPart.block?).all fun b => CleanCut before b (ps.flatMap sharedText)) &&
      areCleanCuts (before ++ sharedText p) ps

/-- The stage blocks among pieces are cut out cleanly if and only if each of them is, with the shared text
of the pieces before and behind it. -/
theorem areCleanCuts_iff {before : Text} {ps : List (Piece ChunkPart)} :
    areCleanCuts before ps = true ↔
      ∀ front raw b back, ps = front ++ .item raw (.block b) :: back →
        CleanCut (before ++ front.flatMap sharedText) b (back.flatMap sharedText) := by
  induction ps generalizing before with
  | nil => simp [areCleanCuts]
  | cons p ps ih =>
    rw [areCleanCuts, Bool.and_eq_true, ih]
    constructor
    · rintro ⟨hp, hps⟩ (_ | ⟨q, front⟩) raw b back heq
      · obtain ⟨rfl, rfl⟩ := List.cons.inj heq
        simpa [Piece.value?, ChunkPart.block?] using hp
      · obtain ⟨rfl, hrest⟩ := List.cons.inj heq
        have := hps front raw b back hrest
        rwa [List.append_assoc] at this
    · intro h
      refine ⟨?_, fun front raw b back heq => ?_⟩
      · match p with
        | .item raw (.block b) =>
          simpa [Piece.value?, ChunkPart.block?] using h [] raw b ps rfl
        | .item _ (.unterminated ..) => rfl
        | .comment _ => rfl
        | .plain _ => rfl
      · have := h (p :: front) raw b back (by rw [heq, List.cons_append])
        rwa [List.flatMap_cons, ← List.append_assoc] at this

/-- Whether the stage blocks of a template are cut out cleanly can be computed. -/
instance (template : Text) : Decidable (CleanCuts template) :=
  decidable_of_iff
    (areCleanCuts [] (pieces (ChunkPart.reader (byteSize template)) template) = true)
    areCleanCuts_iff

/-- Pieces have a first stage block, or all of them are shared. -/
theorem exists_first_block (ps : List (Piece ChunkPart)) :
    (∀ p ∈ ps, sharedText p = p.text) ∨
      ∃ front raw b back, ps = front ++ .item raw (.block b) :: back ∧
        ∀ p ∈ front, sharedText p = p.text := by
  induction ps with
  | nil => exact .inl fun p hp => by cases hp
  | cons p ps ih =>
    have hshared : sharedText p = p.text → (∀ q ∈ p :: ps, sharedText q = q.text) ∨
        ∃ front raw b back, p :: ps = front ++ .item raw (.block b) :: back ∧
          ∀ q ∈ front, sharedText q = q.text := by
      intro hp
      rcases ih with hall | ⟨front, raw, b, back, rfl, hfront⟩
      · exact .inl (List.forall_mem_cons.2 ⟨hp, hall⟩)
      · exact .inr ⟨p :: front, raw, b, back, rfl, List.forall_mem_cons.2 ⟨hp, hfront⟩⟩
    match p with
    | .comment _ => exact hshared rfl
    | .plain _ => exact hshared rfl
    | .item _ (.unterminated ..) => exact hshared rfl
    | .item raw (.block b) => exact .inr ⟨[], raw, b, ps, rfl, fun q hq => by cases hq⟩

/-- Pieces without stage blocks are all shared. -/
theorem flatMap_sharedText {ps : List (Piece ChunkPart)} (h : ∀ p ∈ ps, sharedText p = p.text) :
    ps.flatMap sharedText = ps.flatMap Piece.text :=
  List.flatMap_congr h

/-- A text that is complete behind a complete one, whose last lexeme is no `/`. -/
theorem complete_of_border {P a : Text} (hP : Complete P) (ha : CommentsClosed a)
    (hborder : (lexemes (P ++ a)).getLast? ≠ some (.live '/')) : Complete a := by
  rcases eq_or_ne a [] with rfl | hne
  · exact complete_nil
  · refine ha.complete ?_
    rwa [hP, List.getLast?_append_of_ne_nil _ (lexemes_ne_nil hne)] at hborder

/-- The texts of shared items are complete. -/
theorem complete_of_shared {size : Nat} {s : Text} {ps : List (Piece ChunkPart)}
    (hps : ∀ p ∈ ps, p ∈ pieces (ChunkPart.reader size) s)
    (hshared : ∀ p ∈ ps, sharedText p = p.text) :
    ∀ raw part, .item raw part ∈ ps → Complete raw := by
  intro raw part hp
  cases part with
  | block b =>
    rw [show raw = [] from (hshared _ hp).symm]
    exact complete_nil
  | unterminated =>
    exact ChunkPart.complete_of_mem_pieces (hps _ hp) fun _ h => by cases h

/-- **Directives of the shared text are directives of the template**, when the blocks are cut out
cleanly; `P` and `Q` are what stands in front of both.

**Proof sketch.** Induction on the pieces. The line of the directive stands in front of the first
block, behind it, or is put together where it is cut out. In front of the block it is a line of the
template; behind it the induction applies; and a line that is put together is no directive. -/
theorem isLive_of_shared {size : Nat} {name : String} {ps : List (Piece ChunkPart)} {s P Q : Text}
    (hs : pieces (ChunkPart.reader size) s = ps) (hP : Complete P) (hQ : Complete Q)
    (hstart : Q = [] → P = [])
    (hcut : ∀ front raw b back, ps = front ++ .item raw (.block b) :: back →
      CleanCut (P ++ front.flatMap sharedText) b (back.flatMap sharedText))
    {u w v : Text} (heq : ps.flatMap sharedText = u ++ (w ++ v)) (hu : u = [] → Q = [])
    (h : Between name u w v) : IsLive (Q ++ s) name := by
  induction hn : ps.length using Nat.strong_induction_on generalizing ps s P Q u with
  | _ n ih =>
  rcases exists_first_block ps with hall | ⟨front, raw, b, back, rfl, hfront⟩
  · -- there is no block
    rw [flatMap_sharedText hall, ← hs, flatMap_text_pieces] at heq
    rw [heq, ← List.append_assoc]
    exact isLive_iff.2 ⟨Q ++ u, w, v, rfl, h.append_left hQ hu⟩
  · have hclean := hcut front raw b back rfl
    rw [flatMap_sharedText hfront] at hclean
    rw [List.flatMap_append, flatMap_sharedText hfront, List.flatMap_cons,
      show sharedText (.item raw (.block b)) = [] from rfl, List.nil_append] at heq
    have hmem : ∀ p ∈ front ++ .item raw (.block b) :: back, p ∈ pieces (ChunkPart.reader size) s :=
      fun p hp => hs ▸ hp
    have hraw : Complete raw := by
      refine ChunkPart.complete_of_mem_pieces (hmem (.item raw (.block b)) (by simp)) fun _ h => ?_
      cases h
      exact hclean.rule
    have hitems := complete_of_shared fun p hp => hmem p (List.mem_append_left _ hp)
    obtain ⟨r, rfl, hr, hclosed⟩ := exists_of_pieces_eq_append hs
    rw [← List.singleton_append] at hr
    obtain ⟨r', rfl, hr', -⟩ := exists_of_pieces_eq_append hr
    have ha := complete_of_border hP (hclosed (by simp) (hitems hfront)) hclean.border
    have hnext : ∀ {u'}, back.flatMap sharedText = u' ++ (w ++ v) → u' ≠ [] → Between name u' w v →
        IsLive ((Q ++ (front.flatMap Piece.text ++ raw)) ++ r') name := by
      intro u' heq' hne' h'
      refine ih back.length (by simp at hn; omega) hr' (hP.append ha) (hQ.append (ha.append hraw))
        (fun hnil => ?_) (fun front' raw' b' back' hback => ?_) heq' (fun hnil => absurd hnil hne') h' rfl
      · simp only [List.append_eq_nil_iff] at hnil
        rw [hstart hnil.1, hnil.2.1]
        rfl
      · have := hcut (front ++ .item raw (.block b) :: front') raw' b' back' (by simp [hback])
        simpa [flatMap_sharedText hfront, sharedText] using this
    -- the line that is put together is no directive
    have hpasted : ∀ {c w'}, front.flatMap Piece.text = u ++ c → w = c ++ w' →
        back.flatMap sharedText = w' ++ v → False := by
      intro c w' hfrontText hline hback
      have hstarts : StartsLine (P ++ u) := by
        rcases eq_or_ne u [] with rfl | hne
        · rw [hstart (hu rfl)]
          exact startsLine_nil
        · exact h.starts.append hne P
      have hnotMem := h.onLine
      rw [hline, List.mem_append, not_or] at hnotMem
      have := hclean.pasted
      rw [hfrontText, ← List.append_assoc, lastLine_append hstarts hnotMem.1, hback,
        firstLine_append hnotMem.2 h.ends, ← hline, h.includes] at this
      cases this
    rcases List.append_eq_append_iff.1 heq with ⟨u', rfl, hback⟩ | ⟨c, hfrontText, hline⟩
    · rcases eq_or_ne u' [] with rfl | hne
      · exact (hpasted (c := []) (by simp) rfl hback).elim
      · have := hnext hback hne (h.of_append_left ha hne)
        simpa [Piece.text] using this
    · rcases List.append_eq_append_iff.1 hline with ⟨v', rfl, rfl⟩ | ⟨w', rfl, hback⟩
      · rcases eq_or_ne v' [] with rfl | hne
        · rw [List.append_nil] at hfrontText
          exact (hpasted hfrontText (List.append_nil w).symm (List.nil_append _).symm).elim
        · rw [hfrontText]
          refine isLive_iff.2 ⟨Q ++ u, w, v' ++ (raw ++ r'), by simp [Piece.text], ?_⟩
          exact (h.of_append_right.append_left hQ hu).append_right fun hnil => absurd hnil hne
      · exact (hpasted hfrontText rfl hback).elim

/-- **Directives of the body of a stage block are directives of the template**, when the blocks are cut
out cleanly: the body stands in the template behind a complete text, and the lines at its ends are no
directives. -/
theorem isLive_of_body {template raw : Text} {b : StageBlock} {name : String}
    (hcuts : CleanCuts template)
    (hb : .item raw (.block b) ∈ pieces (ChunkPart.reader (byteSize template)) template)
    (h : IsLive b.body name) : IsLive template name := by
  obtain ⟨front, back, hs⟩ := List.append_of_mem hb
  have hclean := hcuts front raw b back hs
  have hitems : ∀ raw part, .item raw part ∈ front → Complete raw := by
    intro raw' part hpart
    refine ChunkPart.complete_of_mem_pieces (hs ▸ List.mem_append_left _ hpart) fun b' hb' => ?_
    obtain ⟨front', back', rfl⟩ := List.append_of_mem hpart
    subst hb'
    exact (hcuts front' raw' b' (back' ++ .item raw (.block b) :: back) (by simp [hs])).rule
  obtain ⟨r, htemplate, hr, hclosed⟩ := exists_of_pieces_eq_append hs
  rw [← List.singleton_append] at hr
  obtain ⟨r', rfl, -, -⟩ := exists_of_pieces_eq_append hr
  obtain ⟨_, hread⟩ := exists_read_of_mem_pieces hb
  obtain ⟨head, heq, -, hhead⟩ := ChunkPart.exists_of_read_block hread
  have hraw : raw = '@' :: (head ++ (b.body ++ ['}', '}'])) :=
    List.append_cancel_right (heq.trans (by simp))
  have hbefore : Complete (front.flatMap Piece.text ++ '@' :: head) :=
    (hclosed (by simp) hitems).append_complete (by decide) (by decide) (hhead hclean.rule)
  obtain ⟨u, w, v, hbody, hbetween⟩ := isLive_iff.1 h
  -- the lines at the ends of the body are no directives, so this line is none of them
  have hu : u ≠ [] := by
    rintro rfl
    have := hclean.first
    rw [hbody, List.nil_append, firstLine_append hbetween.onLine hbetween.ends,
      hbetween.includes] at this
    cases this
  have hv : v ≠ [] := by
    rintro rfl
    have := hclean.last
    rw [hbody, List.append_nil, lastLine_append hbetween.starts hbetween.onLine,
      hbetween.includes] at this
    cases this
  refine isLive_iff.2 ⟨front.flatMap Piece.text ++ '@' :: head ++ u, w, v ++ ('}' :: '}' :: r'), ?_, ?_⟩
  · rw [htemplate, hraw, hbody]
    simp [Piece.text]
  · exact (hbetween.append_left hbefore fun hnil => absurd hnil hu).append_right
      fun hnil => absurd hnil hv

end ChunkContent

/-! ### Chunks -/

namespace Chunk

open Include ChunkContent

/-- The directives that are read from a text are live. -/
theorem isLive_of_mem_directives {s : Text} {p : Text × Option Text} {n : Text}
    (hp : p ∈ directives s) (hn : p.2 = some n) : IsLive s (.ofList n) := by
  obtain ⟨l, _⟩ := p
  subst hn
  rw [IsLive, String.toList_ofList]
  exact mem_directivesFrom_iff.1 ⟨l, hp⟩

/-- The directives of the shared text and of the codes of a chunk are directives of its template, when
the blocks are cut out cleanly. -/
theorem isLive_of_part {name template n : String} (hcuts : CleanCuts template.toList) {s : Text}
    (hs : s = (ofTemplate name template).shared ∨
      ∃ stage, s = (ofTemplate name template).code stage)
    (h : IsLive s n) : IsLive template.toList n := by
  rcases hs with rfl | ⟨stage, rfl⟩
  · obtain ⟨u, w, v, heq, hbetween⟩ := isLive_iff.1 h.of_trim
    exact isLive_of_shared rfl complete_nil complete_nil (fun _ => rfl) hcuts heq (fun _ => rfl)
      hbetween
  · cases hblock : block? (ofTemplate name template).content.blocks stage with
    | none =>
      obtain ⟨_, _, _, hlines, -⟩ := h
      simp [code, codeOf, hblock, lines] at hlines
    | some b =>
      have hb : b ∈ (ofTemplate name template).content.blocks :=
        (List.mem_filter.1 (List.mem_of_getLast? hblock)).1
      simp only [ofTemplate, parse, List.mem_filterMap] at hb
      obtain ⟨part, ⟨piece, hpiece, hpart⟩, hb⟩ := hb
      have hitem : ∃ raw, piece = .item raw (.block b) := by
        cases piece with
        | item raw part' =>
          cases hpart
          cases part with
          | block b' =>
            cases hb
            exact ⟨raw, rfl⟩
          | unterminated => cases hb
        | _ => cases hpart
      obtain ⟨raw, rfl⟩ := hitem
      rw [code, codeOf, hblock] at h
      exact isLive_of_body hcuts hpiece (IsLive.of_trim h)

/-- **No directive is taken out of a chunk without being followed**, when its stage blocks are cut out
cleanly. A directive in the shared text or in the code of a stage has its name among those that the
chunk includes. So that name is visited where the chunk is, and a strict collection that succeeds has a
chunk for it.

**Proof sketch.** Trimming makes no directives. A directive of the untrimmed text is a line between two
others of the template, outside block comments there as well. -/
theorem includes_of_directive (name template : String) (hcuts : CleanCuts template.toList) :
    let c := ofTemplate name template
    ∀ s, (s = c.shared ∨ ∃ stage, s = c.code stage) →
      ∀ p ∈ directives s, ∀ n, p.2 = some n →
        .ofList n ∈ c.includes ∧
          ∀ (scope : Scope) (shader : String) (t : Text) (via : String),
            scope.find? via = some c → via ∈ scope.visited t →
            .ofList n ∈ scope.visited t ∧
            ∀ chunks, (scope.collect true shader t).value = .ok chunks →
              ∃ d ∈ chunks, scope.find? (.ofList n) = some d := by
  intro c s hs p hp n hn
  have hlive := isLive_of_part hcuts hs (isLive_of_mem_directives hp hn)
  refine ⟨mem_includeNames_iff.2 hlive, fun scope shader t via hfind hvia => ?_⟩
  have hvisited : .ofList n ∈ scope.visited t :=
    ((scope.isDiscovery_visited t).mem_iff _).2
      (.step (((scope.isDiscovery_visited t).mem_iff via).1 hvia) hfind hlive)
  refine ⟨hvisited, fun chunks hchunks => ?_⟩
  rw [Scope.collect_strict_eq] at hchunks
  obtain ⟨haccepts, rfl⟩ := Scope.gatherFrom_eq_ok hchunks
  obtain ⟨d, hd, -⟩ := haccepts _ hvisited
  exact ⟨d, List.mem_filterMap.2 ⟨_, hvisited, hd⟩, hd⟩

/-- A chunk with a directive at the start of its code for the fragment stage. -/
def glaze : Chunk :=
  .ofTemplate "glaze" "fn f() \x7b\x7d\n@fragment \x7b\x7b\n  #include <tint>\n  tint();\n\x7d\x7d\n"

/-- The name is among those that the chunk includes, and it is visited where the chunk is. -/
theorem includes_of_directive_glaze :
    CleanCuts glaze.template.toList ∧
      ("#include <tint>\n".toList, some "tint".toList) ∈ directives (glaze.code .fragment) ∧
      "tint" ∈ glaze.includes ∧
      "tint" ∈ Scope.visited ⟨[glaze], Table.empty⟩ "#include <glaze>".toList := by
  have hcuts : CleanCuts glaze.template.toList := by decide +kernel
  have hdirective :
      ("#include <tint>\n".toList, some "tint".toList) ∈ directives (glaze.code .fragment) := by
    decide +kernel
  have hfind : (Scope.mk [glaze] Table.empty).find? "glaze" = some glaze := rfl
  have hvisited : "glaze" ∈ Scope.visited ⟨[glaze], Table.empty⟩ "#include <glaze>".toList :=
    ((Scope.isDiscovery_visited _ _).mem_iff _).2
      (.root (mem_includeNames_iff.1 (by decide +kernel)))
  obtain ⟨hincluded, hfollowed⟩ := includes_of_directive "glaze" _ hcuts (glaze.code .fragment)
    (.inr ⟨.fragment, rfl⟩) _ hdirective _ rfl
  exact ⟨hcuts, hdirective, hincluded, (hfollowed _ "" _ _ hfind hvisited).1⟩

/-- A chunk with a directive on the line on which its stage block starts. -/
def haunted : Chunk :=
  .ofTemplate "haunted" "@fragment \x7b\x7b #include <ghost>\n x(); \x7d\x7d"

/-- **A directive on the line of `{{` is taken out without being followed**: the code starts with it,
but its line in the template does not have the form of a directive. A strict composition succeeds,
although there is no chunk of that name, and the directive is not in the program. -/
theorem directive_beside_braces_unfollowed :
    ("#include <ghost>\n".toList, some "ghost".toList) ∈ directives (haunted.code .fragment) ∧
      haunted.includes = [] ∧
      (Composer.compose ⟨⟨[haunted], Table.empty⟩, Table.empty, true, Composer.anonymous⟩ Table.empty
        ["haunted"] "\x7b\x7bfragment\x7d\x7d".toList .empty).value.1 = .ok " x();".toList := by
  decide +kernel

end Chunk

end ShaderWeave
