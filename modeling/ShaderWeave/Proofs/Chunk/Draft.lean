import ShaderWeave.Proofs.Chunk.Authoring
import ShaderWeave.Proofs.Conditional.Expansion
import ShaderWeave.Proofs.Marker.Sections

set_option autoImplicit false

/-!
# Drafts of chunk templates

The template of a chunk may nest stage blocks, entry points, directives, scopes, comments and
conditionals in each other. A *draft* is the tree of such a template. Flags choose a draft without
conditionals from it. The blocks can be cut out of a draft, the directives taken out of it and its entry
markers written out, and all of this can as well be done behind the choice.

## Main definitions

* `ShaderWeave.Draft` — the tree of a chunk template.
* `ShaderWeave.Draft.text` — the text of a draft.
* `ShaderWeave.Draft.choose` — the draft that flags choose.
* `ShaderWeave.Draft.cut`, `ShaderWeave.Draft.blocks` — a draft without its stage blocks, and these.
* `ShaderWeave.Draft.strip`, `ShaderWeave.Draft.stretches` — a draft without its directives, and the
  stretches that its text is made of.
* `ShaderWeave.Draft.expanded`, `ShaderWeave.Draft.sections` — a draft with its entry markers written
  out, and the sections that its text is made of.
* `ShaderWeave.Draft.Aligned` — a draft whose directives and entry markers are lines.
* `ShaderWeave.Draft.KeepsBlocks`, `ShaderWeave.Draft.KeepsDirectives` — flags that discard no stage
  block, or no directive.

## Main results

* `ShaderWeave.Draft.text_choose` — the text of the draft that flags choose is the expansion of the
  text.
* `ShaderWeave.Draft.cut_choose`, `ShaderWeave.Draft.strip_choose` — cutting and choosing commute.
* `ShaderWeave.Draft.eval_expanded_choose` — so do writing markers out and choosing.
* `ShaderWeave.Draft.blocks_choose`, `ShaderWeave.Draft.names_choose` — what is kept where nothing is
  discarded.
-/

namespace ShaderWeave

open Text Scan Include

/-! ### The parts of a draft -/

/-- **Whether an `@` in front of a text starts no stage block and no entry marker**, whatever follows
the text: the word behind it is no stage, or neither a parenthesis nor a brace comes next. -/
def startsNoHead (v : Text) : Bool :=
  match v.dropWhile isWordChar with
  | [] => Stage.all.all fun stage => (after? v stage.name.toList).isNone
  | r => Stage.ofName? (v.takeWhile isWordChar) = none ||
    (skipBlanks r).head?.any fun c => c ≠ '(' && c ≠ '{'

/-- **Whether no stage block and no entry marker starts in a text**, whatever follows it. -/
def isMarkless : Text → Bool
  | [] => true
  | c :: v => (c ≠ '@' || startsNoHead v) && isMarkless v

/-- **A plain text of a draft**, which starts no stage block, no entry marker and no directive. -/
structure SourceText extends PlainText where
  markless : isMarkless text = true := by decide
  unincluded : isClearOf keyword text = true := by decide

/-- **A directive of a draft.** -/
structure DirectiveLine extends PlainText where
  name : Text
  markless : isMarkless text = true := by decide
  isDirective : IsDirective text name

/-- **The head of a stage block of a draft**, which is a plain text. -/
structure BlockHead extends StageHead where
  noOpen : '{' ∉ toStageHead.text := by decide
  noClose : '}' ∉ toStageHead.text := by decide
  uncommented : isUncommented toStageHead.text = true := by decide
  unconditional : isClearOf ['#', 'i', 'f'] toStageHead.text = true := by decide
  unincluded : isClearOf keyword toStageHead.text = true := by decide

/-- The head as a plain text. -/
def BlockHead.plain (h : BlockHead) : PlainText :=
  ⟨h.text, h.noOpen, h.noClose, h.uncommented, h.unconditional⟩

/-- **A draft**: what comes first in it, and the rest. -/
inductive Draft where
  /-- Nothing. -/
  | done
  | plain (t : SourceText) (rest : Draft)
  | comment (c : ClosedComment) (rest : Draft)
  /-- Braces of the program, with what stands between them. -/
  | scope (body rest : Draft)
  /-- A conditional without an alternative. -/
  | when (head : IfHead) (body rest : Draft)
  /-- A conditional with an alternative. -/
  | either (head : IfHead) (body : Draft) (mid : ElseHead) (alt rest : Draft)
  | directive (l : DirectiveLine) (rest : Draft)
  /-- An entry marker, with the body of its entry point. -/
  | entry (l : MarkerLine) (body rest : Draft)
  /-- A stage block. -/
  | block (head : BlockHead) (body rest : Draft)

/-! ### Ways to cut a draft -/

/-- **A way to cut the text of a draft into slices**, some of which come with a text: what its comments are
cut into, and what its directives and entry markers come with. -/
structure Cutting where
  comment : ClosedComment → List (Text × Option Text)
  directive : DirectiveLine → Option Text
  entry : MarkerLine → Option Text
  flatMap_comment : ∀ c, (comment c).flatMap Prod.fst = c.text
  placed_comment : ∀ c b, Placed b (comment c)

/-- The cuts at directives, which come with the names that they include. -/
def Cutting.atDirectives : Cutting where
  comment := fun c => [(c.text, none)]
  directive := fun l => some l.name
  entry := fun _ => none
  flatMap_comment := fun _ => List.flatMap_singleton _ _
  placed_comment := fun _ _ => ⟨by simp, trivial⟩

/-- The cuts at entry markers, also in comments, which come with what they become. -/
def Cutting.atMarkers : Cutting where
  comment := ClosedComment.sections
  directive := fun _ => none
  entry := fun l => some (expandEntries l.text)
  flatMap_comment := ClosedComment.flatMap_sections
  placed_comment := ClosedComment.placed_sections

namespace Draft

variable {flags : Flags} {k : Cutting} {b : Bool}

/-- **A draft as a tree of markup**, in which directives, entry markers and the heads of stage blocks are
plain text. -/
def toMarkup : Draft → Markup
  | done => .done
  | plain t rest => .plain t.toPlainText rest.toMarkup
  | comment c rest => .comment c rest.toMarkup
  | scope body rest => .scope body.toMarkup rest.toMarkup
  | .when head body rest => .when head body.toMarkup rest.toMarkup
  | either head body mid alt rest => .either head body.toMarkup mid alt.toMarkup rest.toMarkup
  | directive l rest => .plain l.toPlainText rest.toMarkup
  | entry l body rest => .plain l.before (.scope (.plain l.behind body.toMarkup) rest.toMarkup)
  | block head body rest => .plain head.plain (.scope (.scope body.toMarkup .done) rest.toMarkup)

/-- **The text of a draft.** -/
def text (d : Draft) : Text :=
  d.toMarkup.render

/-! ### The choice of flags -/

/-- A draft behind another one. -/
def append : Draft → Draft → Draft
  | done, e => e
  | plain t rest, e => plain t (rest.append e)
  | comment c rest, e => comment c (rest.append e)
  | scope body rest, e => scope body (rest.append e)
  | .when head body rest, e => .when head body (rest.append e)
  | either head body mid alt rest, e => either head body mid alt (rest.append e)
  | directive l rest, e => directive l (rest.append e)
  | entry l body rest, e => entry l body (rest.append e)
  | block head body rest, e => block head body (rest.append e)

/-- **The draft that flags choose**: each conditional gives way to one of its bodies, or to nothing. -/
def choose (flags : Flags) : Draft → Draft
  | done => done
  | plain t rest => plain t (rest.choose flags)
  | comment c rest => comment c (rest.choose flags)
  | scope body rest => scope (body.choose flags) (rest.choose flags)
  | .when head body rest =>
    (if head.Holds flags then body.choose flags else done).append (rest.choose flags)
  | either head body _ alt rest =>
    (if head.Holds flags then body.choose flags else alt.choose flags).append (rest.choose flags)
  | directive l rest => directive l (rest.choose flags)
  | entry l body rest => entry l (body.choose flags) (rest.choose flags)
  | block head body rest => block head (body.choose flags) (rest.choose flags)

/-- A draft without conditionals. -/
def IsFree : Draft → Prop
  | done => True
  | plain _ rest => rest.IsFree
  | comment _ rest => rest.IsFree
  | scope body rest => body.IsFree ∧ rest.IsFree
  | .when .. => False
  | either .. => False
  | directive _ rest => rest.IsFree
  | entry _ body rest => body.IsFree ∧ rest.IsFree
  | block _ body rest => body.IsFree ∧ rest.IsFree

/-- The text of two drafts in a row is their two texts in a row. -/
theorem text_append (d e : Draft) : (d.append e).text = d.text ++ e.text := by
  induction d with
  | done => rfl
  | _ => simp_all [append, text, toMarkup, Markup.render]

/-- Two drafts without conditionals have none in a row. -/
theorem isFree_append {d e : Draft} (hd : d.IsFree) (he : e.IsFree) : (d.append e).IsFree := by
  induction d with
  | done => exact he
  | _ => simp_all [append, IsFree]

/-- The draft that flags choose has no conditionals. -/
theorem isFree_choose (d : Draft) : (d.choose flags).IsFree := by
  induction d with
  | when head body rest ihb ih =>
    rw [choose]
    refine isFree_append ?_ ih
    split
    · exact ihb
    · trivial
  | either head body mid alt rest ihb iha ih =>
    rw [choose]
    refine isFree_append ?_ ih
    split
    · exact ihb
    · exact iha
  | _ => simp_all [choose, IsFree]

/-- **The text of the draft that flags choose** is the value of the tree. -/
theorem text_choose (d : Draft) : (d.choose flags).text = d.toMarkup.eval flags := by
  induction d with
  | when head body rest ihb ih =>
    rw [choose, text_append, ih, toMarkup, Markup.eval]
    split <;> simp_all [text, toMarkup, Markup.render]
  | either head body mid alt rest ihb iha ih =>
    rw [choose, text_append, ih, toMarkup, Markup.eval]
    split <;> simp_all
  | _ => simp_all [choose, text, toMarkup, Markup.render, Markup.eval]

/-- Without conditionals there is no stray `else`. -/
theorem IsFree.noStrayElse {d : Draft} (h : d.IsFree) : d.toMarkup.NoStrayElse := by
  induction d with
  | when => exact h.elim
  | either => exact h.elim
  | _ => simp_all [IsFree, toMarkup, Markup.NoStrayElse]

/-! ### Stage blocks -/

/-- **A draft without its stage blocks.** -/
def cut : Draft → Draft
  | done => done
  | plain t rest => plain t rest.cut
  | comment c rest => comment c rest.cut
  | scope body rest => scope body.cut rest.cut
  | .when head body rest => .when head body.cut rest.cut
  | either head body mid alt rest => either head body.cut mid alt.cut rest.cut
  | directive l rest => directive l rest.cut
  | entry l body rest => entry l body.cut rest.cut
  | block _ _ rest => rest.cut

/-- **The stage blocks of a draft**, in order. -/
def blocks : Draft → List (BlockHead × Draft)
  | done => []
  | plain _ rest => rest.blocks
  | comment _ rest => rest.blocks
  | scope body rest => body.blocks ++ rest.blocks
  | .when _ body rest => body.blocks ++ rest.blocks
  | either _ body _ alt rest => body.blocks ++ (alt.blocks ++ rest.blocks)
  | directive _ rest => rest.blocks
  | entry _ body rest => body.blocks ++ rest.blocks
  | block head body rest => (head, body) :: rest.blocks

/-- Two drafts in a row without their stage blocks are each without its own. -/
theorem cut_append (d e : Draft) : (d.append e).cut = d.cut.append e.cut := by
  induction d with
  | done => rfl
  | _ => simp_all [append, cut]

/-- **Cutting blocks out and choosing commute.** -/
theorem cut_choose (d : Draft) : (d.choose flags).cut = d.cut.choose flags := by
  induction d with
  | when head body rest ihb ih =>
    rw [choose, cut_append, ih, cut, choose]
    split <;> simp_all [cut]
  | either head body mid alt rest ihb iha ih =>
    rw [choose, cut_append, ih, cut, choose]
    split <;> simp_all
  | _ => simp_all [choose, cut]

/-- The stage blocks of two drafts in a row are those of each. -/
theorem blocks_append (d e : Draft) : (d.append e).blocks = d.blocks ++ e.blocks := by
  induction d with
  | done => rfl
  | _ => simp_all [append, blocks]

/-! ### The slices of a draft -/

/-- **The slices that the text of a draft is made of.** -/
def slices (k : Cutting) : Draft → List (Text × Option Text)
  | done => []
  | plain t rest => (t.text, none) :: rest.slices k
  | comment c rest => k.comment c ++ rest.slices k
  | scope body rest => (['{'], none) :: (body.slices k ++ (['}'], none) :: rest.slices k)
  | .when head body rest =>
    (head.text ++ ['{'], none) :: (body.slices k ++ (['}'], none) :: rest.slices k)
  | either head body mid alt rest =>
    (head.text ++ ['{'], none) :: (body.slices k ++
      ('}' :: mid.text ++ ['{'], none) :: (alt.slices k ++ (['}'], none) :: rest.slices k))
  | directive l rest => (l.text, k.directive l) :: rest.slices k
  | entry l body rest =>
    (l.toEntryLine.text, k.entry l) :: (body.slices k ++ (['}'], none) :: rest.slices k)
  | block head body rest =>
    (head.text ++ ['{', '{'], none) :: (body.slices k ++ (['}', '}'], none) :: rest.slices k)

/-- The slices of two drafts in a row are those of each. -/
theorem slices_append (d e : Draft) : (d.append e).slices k = d.slices k ++ e.slices k := by
  induction d with
  | done => rfl
  | _ => simp_all [append, slices]

/-- The slices make up the text. -/
theorem flatMap_slices (d : Draft) : (d.slices k).flatMap Prod.fst = d.text := by
  induction d with
  | entry l body rest ihb ih =>
    simp [slices, ihb, ih, text, toMarkup, Markup.render, braced, l.text_eq_before]
  | _ =>
    simp_all [slices, k.flatMap_comment, text, toMarkup, Markup.render, braced, BlockHead.plain]

/-- **A draft whose directives and entry markers are whole lines**, given whether a line starts in front of
it. -/
def Aligned : Bool → Draft → Prop
  | _, done => True
  | b, plain t rest => rest.Aligned (lineAfter b t.text)
  | b, comment c rest => rest.Aligned (lineAfter b c.text)
  | _, scope body rest => body.Aligned false ∧ rest.Aligned false
  | _, .when _ body rest => body.Aligned false ∧ rest.Aligned false
  | _, either _ body _ alt rest => body.Aligned false ∧ alt.Aligned false ∧ rest.Aligned false
  | b, directive _ rest => b = true ∧ rest.Aligned true
  | b, entry _ body rest => b = true ∧ body.Aligned true ∧ rest.Aligned false
  | _, block _ body rest => body.Aligned false ∧ rest.Aligned false

/-- A draft may stand where a line starts if it may stand elsewhere. -/
theorem Aligned.mono {d : Draft} (h : d.Aligned b) {c : Bool} (hbc : b = true → c = true) :
    d.Aligned c := by
  induction d generalizing b c with
  | plain t rest ih => exact ih h (lineAfter_mono hbc)
  | comment t rest ih => exact ih h (lineAfter_mono hbc)
  | directive l rest => exact ⟨hbc h.1, h.2⟩
  | entry l body rest => exact ⟨hbc h.1, h.2⟩
  | _ => exact h

/-- Behind a brace a draft may stand wherever it may. -/
theorem Aligned.of_false {d : Draft} (h : d.Aligned false) (b : Bool) : d.Aligned b :=
  h.mono (by simp)

/-- Drafts one behind the other. -/
theorem Aligned.append {d e : Draft} (hd : d.Aligned b) (he : e.Aligned false) :
    (d.append e).Aligned b := by
  induction d generalizing b with
  | done => exact he.of_false b
  | plain t rest ih => exact ih hd
  | comment t rest ih => exact ih hd
  | scope body rest _ ih => exact ⟨hd.1, ih hd.2⟩
  | when head body rest _ ih => exact ⟨hd.1, ih hd.2⟩
  | either head body mid alt rest _ _ ih => exact ⟨hd.1, hd.2.1, ih hd.2.2⟩
  | directive l rest ih => exact ⟨hd.1, ih hd.2⟩
  | entry l body rest _ ih => exact ⟨hd.1, hd.2.1, ih hd.2.2⟩
  | block head body rest _ ih => exact ⟨hd.1, ih hd.2⟩

/-- **The draft that flags choose** has its directives and entry markers on lines as well. -/
theorem Aligned.choose {d : Draft} (h : d.Aligned b) (flags : Flags) : (d.choose flags).Aligned b := by
  induction d generalizing b with
  | done => trivial
  | plain t rest ih => exact ih h
  | comment t rest ih => exact ih h
  | scope body rest ihb ih => exact ⟨ihb h.1, ih h.2⟩
  | when head body rest ihb ih =>
    refine Aligned.append ?_ (ih h.2)
    split
    · exact (ihb h.1).of_false b
    · trivial
  | either head body mid alt rest ihb iha ih =>
    refine Aligned.append ?_ (ih h.2.2)
    split
    · exact (ihb h.1).of_false b
    · exact (iha h.2.1).of_false b
  | directive l rest ih => exact ⟨h.1, ih h.2⟩
  | entry l body rest ihb ih => exact ⟨h.1, ihb h.2.1, ih h.2.2⟩
  | block head body rest ihb ih => exact ⟨ihb h.1, ih h.2⟩

/-- So has the draft without its stage blocks. -/
theorem Aligned.cut {d : Draft} (h : d.Aligned b) : d.cut.Aligned b := by
  induction d generalizing b with
  | done => trivial
  | plain t rest ih => exact ih h
  | comment t rest ih => exact ih h
  | scope body rest ihb ih => exact ⟨ihb h.1, ih h.2⟩
  | when head body rest ihb ih => exact ⟨ihb h.1, ih h.2⟩
  | either head body mid alt rest ihb iha ih => exact ⟨ihb h.1, iha h.2.1, ih h.2.2⟩
  | directive l rest ih => exact ⟨h.1, ih h.2⟩
  | entry l body rest ihb ih => exact ⟨h.1, ihb h.2.1, ih h.2.2⟩
  | block head body rest _ ih => exact (ih h.2).of_false b

/-- So have the bodies of the stage blocks. -/
theorem Aligned.of_mem_blocks {d : Draft} (h : d.Aligned b) {p : BlockHead × Draft}
    (hp : p ∈ d.blocks) : p.2.Aligned true := by
  induction d generalizing b with
  | done => cases hp
  | plain t rest ih => exact ih h hp
  | comment t rest ih => exact ih h hp
  | scope body rest ihb ih => exact (List.mem_append.1 hp).elim (ihb h.1) (ih h.2)
  | when head body rest ihb ih => exact (List.mem_append.1 hp).elim (ihb h.1) (ih h.2)
  | either head body mid alt rest ihb iha ih =>
    exact (List.mem_append.1 hp).elim (ihb h.1) fun hp =>
      (List.mem_append.1 hp).elim (iha h.2.1) (ih h.2.2)
  | directive l rest ih => exact ih h.2 hp
  | entry l body rest ihb ih => exact (List.mem_append.1 hp).elim (ihb h.2.1) (ih h.2.2)
  | block head body rest _ ih =>
    rcases List.mem_cons.1 hp with rfl | hp
    · exact h.1.of_false true
    · exact ih h.2 hp

/-- What stands behind a brace stands so whatever is in front of it. -/
theorem placed_append_concat (ls ms : List (Text × Option Text)) (u : Text) {c : Char}
    (hc : c ≠ '\n') :
    Placed b (ls ++ (u ++ [c], none) :: ms) ↔ Placed b ls ∧ Placed false ms := by
  simp [placed_append, Placed, lineAfter_concat, hc]

/-- **Slices that come with a text stand where lines start.** -/
theorem Aligned.placed {d : Draft} (h : d.Aligned b) : Placed b (d.slices k) := by
  have hbrace : ∀ {b ls ms}, Placed b ls → Placed false ms →
      Placed b (ls ++ (['}'], none) :: ms) := fun hl hm =>
    (placed_append_concat _ _ [] (by decide)).2 ⟨hl, hm⟩
  induction d generalizing b with
  | done => trivial
  | plain t rest ih => exact ⟨by simp, ih h⟩
  | comment c rest ih =>
    rw [slices, placed_append, k.flatMap_comment]
    exact ⟨k.placed_comment c b, ih h⟩
  | scope body rest ihb ih => exact ⟨by simp, hbrace (ihb h.1) (ih h.2)⟩
  | when head body rest ihb ih =>
    refine ⟨by simp, ?_⟩
    rw [lineAfter_concat]
    exact hbrace (ihb h.1) (ih h.2)
  | either head body mid alt rest ihb iha ih =>
    refine ⟨by simp, ?_⟩
    rw [lineAfter_concat]
    exact (placed_append_concat _ _ ('}' :: mid.text) (by decide)).2
      ⟨ihb h.1, hbrace (iha h.2.1) (ih h.2.2)⟩
  | directive l rest ih =>
    obtain ⟨w, hw, -⟩ := l.isDirective.isLine
    refine ⟨fun _ => h.1, ?_⟩
    rw [hw, lineAfter_concat]
    exact ih h.2
  | entry l body rest ihb ih =>
    obtain ⟨w, hw, -⟩ := l.isLine
    refine ⟨fun _ => h.1, ?_⟩
    rw [hw, lineAfter_concat]
    exact hbrace (ihb h.2.1) (ih h.2.2)
  | block head body rest ihb ih =>
    refine ⟨by simp, ?_⟩
    have hhead : lineAfter b (head.text ++ ['{', '{']) = false := by simp [lineAfter]
    rw [hhead]
    exact (placed_append_concat _ _ ['}'] (by decide)).2 ⟨ihb h.1, ih h.2⟩

/-! ### Directives -/

/-- **A draft without its directives.** -/
def strip : Draft → Draft
  | done => done
  | plain t rest => plain t rest.strip
  | comment c rest => comment c rest.strip
  | scope body rest => scope body.strip rest.strip
  | .when head body rest => .when head body.strip rest.strip
  | either head body mid alt rest => either head body.strip mid alt.strip rest.strip
  | directive _ rest => rest.strip
  | entry l body rest => entry l body.strip rest.strip
  | block head body rest => block head body.strip rest.strip

/-- Two drafts in a row without their directives are each without its own. -/
theorem strip_append (d e : Draft) : (d.append e).strip = d.strip.append e.strip := by
  induction d with
  | done => rfl
  | _ => simp_all [append, strip]

/-- **Taking directives out and choosing commute.** -/
theorem strip_choose (d : Draft) : (d.choose flags).strip = d.strip.choose flags := by
  induction d with
  | when head body rest ihb ih =>
    rw [choose, strip_append, ih, strip, choose]
    split <;> simp_all [strip]
  | either head body mid alt rest ihb iha ih =>
    rw [choose, strip_append, ih, strip, choose]
    split <;> simp_all
  | _ => simp_all [choose, strip]

/-- **The stretches that the text of a draft is made of**: directives, with the names that they include,
and the texts in between. -/
def stretches (d : Draft) : List (Text × Option Text) :=
  d.slices .atDirectives

/-- The names that the directives of a draft include, in order. -/
def names (d : Draft) : List Text :=
  d.stretches.filterMap Prod.snd

/-- The empty draft includes no name. -/
theorem names_done : names done = [] :=
  rfl

/-- The names that two drafts in a row include are those of each. -/
theorem names_append (d e : Draft) : (d.append e).names = d.names ++ e.names := by
  rw [names, stretches, slices_append, List.filterMap_append, names, names, stretches, stretches]

/-- Without its directives a draft has its entry markers on lines as well. -/
theorem Aligned.strip {d : Draft} (h : d.Aligned b) : d.strip.Aligned b := by
  induction d generalizing b with
  | done => trivial
  | plain t rest ih => exact ih h
  | comment t rest ih => exact ih h
  | scope body rest ihb ih => exact ⟨ihb h.1, ih h.2⟩
  | when head body rest ihb ih => exact ⟨ihb h.1, ih h.2⟩
  | either head body mid alt rest ihb iha ih => exact ⟨ihb h.1, iha h.2.1, ih h.2.2⟩
  | directive l rest ih => exact (ih h.2).mono fun _ => h.1
  | entry l body rest ihb ih => exact ⟨h.1, ihb h.2.1, ih h.2.2⟩
  | block head body rest ihb ih => exact ⟨ihb h.1, ih h.2⟩

/-- The stretches that are no directives make up the text without directives. -/
theorem flatMap_filter_stretches (d : Draft) :
    (d.stretches.filter (·.2.isNone)).flatMap Prod.fst = d.strip.text := by
  rw [stretches]
  induction d with
  | entry l body rest ihb ih =>
    simp_all [slices, Cutting.atDirectives, strip, text, toMarkup, Markup.render, braced,
      l.text_eq_before]
  | _ =>
    simp_all [slices, Cutting.atDirectives, strip, text, toMarkup, Markup.render, braced,
      BlockHead.plain]

/-! ### Entry markers -/

/-- **A draft with its entry markers written out**, as a tree of markup. -/
def expanded : Draft → Markup
  | done => .done
  | plain t rest => .plain t.toPlainText rest.expanded
  | comment c rest => .comment c.expanded rest.expanded
  | scope body rest => .scope body.expanded rest.expanded
  | .when head body rest => .when head body.expanded rest.expanded
  | either head body mid alt rest => .either head body.expanded mid alt.expanded rest.expanded
  | directive l rest => .plain l.toPlainText rest.expanded
  | entry l body rest => .plain l.headBefore (.scope (.plain l.headBehind body.expanded) rest.expanded)
  | block head body rest => .plain head.plain (.scope (.scope body.expanded .done) rest.expanded)

/-- Two drafts in a row with their entry markers written out have the values of each. -/
theorem eval_expanded_append (d e : Draft) :
    (d.append e).expanded.eval flags = d.expanded.eval flags ++ e.expanded.eval flags := by
  induction d with
  | done => rfl
  | _ => simp_all [append, expanded, Markup.eval]

/-- **Writing entry markers out and choosing commute**: the values are the same. -/
theorem eval_expanded_choose (d : Draft) :
    (d.choose flags).expanded.eval flags = d.expanded.eval flags := by
  induction d with
  | when head body rest ihb ih =>
    rw [choose, eval_expanded_append, ih, expanded, Markup.eval]
    split <;> simp_all [expanded, Markup.eval]
  | either head body mid alt rest ihb iha ih =>
    rw [choose, eval_expanded_append, ih, expanded, Markup.eval]
    split <;> simp_all
  | _ => simp_all [choose, expanded, Markup.eval]

/-- **The sections that the text of a draft is made of**: entry markers, with what they become, and the
texts in between. -/
def sections (d : Draft) : List (Text × Option Text) :=
  d.slices .atMarkers

/-- What the sections become makes up the text with the markers written out. -/
theorem flatMap_becomes_sections (d : Draft) : d.sections.flatMap becomes = d.expanded.render := by
  rw [sections]
  induction d with
  | comment c rest ih =>
    simp_all [slices, Cutting.atMarkers, expanded, Markup.render, c.flatMap_becomes_sections]
  | entry l body rest ihb ih =>
    simp_all [slices, Cutting.atMarkers, expanded, Markup.render, braced, becomes, l.expandEntries_text]
  | _ =>
    simp_all [slices, Cutting.atMarkers, expanded, Markup.render, braced, becomes, BlockHead.plain]

/-! ### What flags keep -/

/-- **Flags that keep the directives of a draft**: a branch that they discard has none. -/
def KeepsDirectives (flags : Flags) : Draft → Prop
  | done => True
  | plain _ rest => rest.KeepsDirectives flags
  | comment _ rest => rest.KeepsDirectives flags
  | scope body rest => body.KeepsDirectives flags ∧ rest.KeepsDirectives flags
  | .when head body rest =>
    (if head.Holds flags then body.KeepsDirectives flags else body.names = []) ∧
      rest.KeepsDirectives flags
  | either head body _ alt rest =>
    (if head.Holds flags then body.KeepsDirectives flags ∧ alt.names = []
      else alt.KeepsDirectives flags ∧ body.names = []) ∧ rest.KeepsDirectives flags
  | directive _ rest => rest.KeepsDirectives flags
  | entry _ body rest => body.KeepsDirectives flags ∧ rest.KeepsDirectives flags
  | block _ body rest => body.KeepsDirectives flags ∧ rest.KeepsDirectives flags

/-- **Flags that keep the stage blocks of a draft**: a branch that they discard has none, unless it is
in the body of a stage block itself. -/
def KeepsBlocks (flags : Flags) : Draft → Prop
  | done => True
  | plain _ rest => rest.KeepsBlocks flags
  | comment _ rest => rest.KeepsBlocks flags
  | scope body rest => body.KeepsBlocks flags ∧ rest.KeepsBlocks flags
  | .when head body rest =>
    (if head.Holds flags then body.KeepsBlocks flags else body.blocks = []) ∧ rest.KeepsBlocks flags
  | either head body _ alt rest =>
    (if head.Holds flags then body.KeepsBlocks flags ∧ alt.blocks = []
      else alt.KeepsBlocks flags ∧ body.blocks = []) ∧ rest.KeepsBlocks flags
  | directive _ rest => rest.KeepsBlocks flags
  | entry _ body rest => body.KeepsBlocks flags ∧ rest.KeepsBlocks flags
  | block _ _ rest => rest.KeepsBlocks flags

/-- **The blocks that are kept** are those of the draft, with the choice made in their bodies. -/
theorem blocks_choose {d : Draft} (h : d.KeepsBlocks flags) :
    (d.choose flags).blocks = d.blocks.map fun p => (p.1, p.2.choose flags) := by
  induction d with
  | when head body rest ihb ih =>
    rw [choose, blocks_append, ih h.2, blocks, List.map_append]
    have := h.1
    split <;> simp_all [blocks]
  | either head body mid alt rest ihb iha ih =>
    rw [choose, blocks_append, ih h.2, blocks, List.map_append, List.map_append]
    have := h.1
    split <;> simp_all
  | _ => simp_all [choose, blocks, KeepsBlocks]

/-- **The names that are kept** are those of the draft. -/
theorem names_choose {d : Draft} (h : d.KeepsDirectives flags) : (d.choose flags).names = d.names := by
  induction d with
  | when head body rest ihb ih =>
    have hnames : (Draft.when head body rest).names = body.names ++ rest.names := by
      simp [names, stretches, slices]
    rw [choose, names_append, ih h.2, hnames]
    have := h.1
    split <;> simp_all [names_done]
  | either head body mid alt rest ihb iha ih =>
    have hnames : (either head body mid alt rest).names =
        body.names ++ (alt.names ++ rest.names) := by
      simp [names, stretches, slices]
    rw [choose, names_append, ih h.2, hnames]
    have := h.1
    split <;> simp_all
  | _ => simp_all [choose, names, stretches, slices, Cutting.atDirectives, KeepsDirectives]

end Draft

end ShaderWeave
