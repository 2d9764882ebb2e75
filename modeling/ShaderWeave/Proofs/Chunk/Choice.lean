import ShaderWeave.Proofs.Chunk.DraftMarkers
import ShaderWeave.Proofs.Chunk.LastNewline
import ShaderWeave.Proofs.Chunk.Roles

set_option autoImplicit false

/-!
# A chunk and the one that flags choose

A chunk is registered as it is written, or with the template that flags choose from it. If the flags
keep its stage blocks and directives, and leave no code blank, both chunks play the same role: they
include the same names, and are put in the same order. What they contribute to a program are texts of
trees that have the same value.

## Main definitions

* `ShaderWeave.Draft.IsSound` — a draft that can be composed for flags before or after the choice.
* `ShaderWeave.Draft.HasText` — the texts of a draft, with the last newline or without it.
* `ShaderWeave.Draft.Describes` — a chunk whose template is a text of a draft.

## Main results

* `ShaderWeave.Draft.IsSound.sameRole` — a chunk and the one that flags choose play the same role.
* `ShaderWeave.Draft.presents_declarationText`, `ShaderWeave.Draft.presents_code` — what a chunk
  contributes presents a draft without stage blocks and directives.
-/

namespace ShaderWeave

open Text Scan

/-! ### Blocks that agree -/

namespace ChunkContent

variable {α : Type} {f g : α → StageBlock} {xs : List α}

/-- The block of a stage among blocks that are made of something. -/
theorem block?_map (stage : Stage) :
    block? (xs.map f) stage = ((xs.filter fun x => (f x).stage = stage).getLast?).map f := by
  rw [block?, List.filter_map, List.getLast?_map]
  rfl

/-- The code of a stage in mapped blocks is that of the last one mapped to a block of the stage. -/
theorem codeOf_map (stage : Stage) :
    codeOf (xs.map f) stage =
      (((xs.filter fun x => (f x).stage = stage).getLast?).map fun x => (f x).code).getD [] := by
  rw [codeOf, block?_map, Option.map_map]
  rfl

/-- Blocks that agree in their stages and in whether they have code. -/
theorem codeOf_map_eq_nil_iff (hstage : ∀ x ∈ xs, (f x).stage = (g x).stage)
    (hcode : ∀ x ∈ xs, (f x).code = [] ↔ (g x).code = []) (stage : Stage) :
    codeOf (xs.map f) stage = [] ↔ codeOf (xs.map g) stage = [] := by
  have hfilter : (xs.filter fun x => (f x).stage = stage) =
      xs.filter fun x => (g x).stage = stage :=
    List.filter_congr fun x hx => by rw [hstage x hx]
  rw [codeOf_map, codeOf_map, hfilter]
  rcases hlast : (xs.filter fun x => (g x).stage = stage).getLast? with _ | x
  · simp
  · have hx : x ∈ xs := (List.mem_filter.1 (List.mem_of_getLast? hlast)).1
    simpa using hcode x hx

/-- **Blocks that agree have the same defects**: in their stages, in their order rules, and in whether
they have code. -/
theorem defectsOf_map (earlier : List α) (hstage : ∀ x ∈ earlier ++ xs, (f x).stage = (g x).stage)
    (hrule : ∀ x ∈ earlier ++ xs, (f x).rule = (g x).rule)
    (hcode : ∀ x ∈ earlier ++ xs, (f x).code = [] ↔ (g x).code = []) :
    defectsOf (earlier.map f) (xs.map fun x => .block (f x)) =
      defectsOf (earlier.map g) (xs.map fun x => .block (g x)) := by
  induction xs generalizing earlier with
  | nil => rfl
  | cons x xs ih =>
    have hx : x ∈ earlier ++ x :: xs := by simp
    have hblock : defectsOfBlock (earlier.map f) (f x) = defectsOfBlock (earlier.map g) (g x) := by
      have hcodeOf : codeOf (earlier.map f) (g x).stage = [] ↔ codeOf (earlier.map g) (g x).stage = [] :=
        codeOf_map_eq_nil_iff (fun y hy => hstage y (List.mem_append_left _ hy))
          (fun y hy => hcode y (List.mem_append_left _ hy)) _
      rw [defectsOfBlock, defectsOfBlock, hstage x hx, hrule x hx]
      simp only [hcodeOf]
    have hrest := ih (earlier ++ [x]) (by simpa using hstage) (by simpa using hrule)
      (by simpa using hcode)
    rw [List.map_append, List.map_append] at hrest
    rw [List.map_cons, List.map_cons, defectsOf, defectsOf, hblock]
    exact congrArg _ hrest

end ChunkContent

namespace Draft

open Include

variable {flags : Flags}

/-! ### Drafts that can be composed -/

/-- **What a draft contributes to programs**: its shared text and the bodies of its stage blocks,
without directives. -/
def contributions (d : Draft) : List Draft :=
  d.cut.strip :: d.blocks.map fun p => p.2.strip

/-- **A draft that can be composed for flags before or after the choice.** -/
structure IsSound (flags : Flags) (d : Draft) : Prop where
  /-- Directives and entry markers are lines. -/
  aligned : d.Aligned true
  keepsDirectives : d.KeepsDirectives flags
  keepsBlocks : d.KeepsBlocks flags
  /-- No code is blank once the choice is made, if it was not before. -/
  codes : ∀ p ∈ d.blocks, trim (p.2.choose flags).text = [] → trim p.2.text = []
  noStrayElse : d.toMarkup.NoStrayElse
  /-- Neither does the word `else` come behind a conditional where blocks and directives are gone. -/
  noStrayElse_contributions : ∀ e ∈ d.contributions, e.toMarkup.NoStrayElse
  /-- What is contributed does not go on with `else`, before and after the choice. -/
  noElse : ∀ e ∈ d.contributions, Markup.startsWithElse (trimStart e.text) = false ∧
    Markup.startsWithElse (trimStart (e.choose flags).text) = false

/-- **The template that flags choose** is the expansion of the template. -/
theorem IsSound.expandConditionals_text {d : Draft} (h : d.IsSound flags) :
    expandConditionals flags d.text = (d.choose flags).text := by
  rw [text_choose]
  exact (Markup.expandConditionals_render _ h.noStrayElse flags).1

/-- **A text of a draft.** If the last line of the draft ends in a newline, it may do without it. -/
def HasText (d : Draft) (s : Text) : Prop :=
  s = d.text ∨ s ++ ['\n'] = d.text

/-- **The texts of the draft that flags choose** are the expansions of the texts of the draft. -/
theorem HasText.expandConditionals {d : Draft} {s : Text} (h : d.HasText s) (hd : d.IsSound flags) :
    (d.choose flags).HasText (expandConditionals flags s) := by
  rcases h with rfl | h
  · exact .inl hd.expandConditionals_text
  · refine .inr ?_
    rw [← expandConditionals_append_newline, h, hd.expandConditionals_text]

/-- **A chunk that a draft describes**: it has the content and the includes of the text of the draft. -/
structure Describes (d : Draft) (c : Chunk) : Prop where
  content : c.content = ChunkContent.parse d.text
  includes : c.includes = includeNames d.text

/-- **A chunk whose template is a text of a draft** is described by the draft. -/
theorem HasText.describes {d : Draft} {s : Text} (h : d.HasText s) (name : String) :
    d.Describes (.ofTemplate name (.ofList s)) := by
  rcases h with rfl | h
  · constructor <;> simp [Chunk.ofTemplate, Chunk.includes]
  · constructor
    · simp [Chunk.ofTemplate, ← h, ChunkContent.parse_append_newline]
    · simp [Chunk.ofTemplate, Chunk.includes, ← h, includeNames_append_newline]

/-- A block whose body consists of spaces is blank after the choice as well. -/
theorem trim_text_choose {d : Draft} (h : trim d.text = []) : trim (d.choose flags).text = [] := by
  rw [trim_eq_nil_iff] at h ⊢
  rw [text_choose, Markup.eval_of_all_isSpace h]
  exact h

/-- **A chunk and the one that flags choose play the same role.** -/
theorem IsSound.sameRole {d : Draft} (h : d.IsSound flags) {a b : Chunk} (ha : d.Describes a)
    (hb : (d.choose flags).Describes b) (hname : a.name = b.name) : a.SameRole b := by
  let f := fun p : BlockHead × Draft => (p.1.written p.2).read
  let g := fun p : BlockHead × Draft => (p.1.written (p.2.choose flags)).read
  have hblocks : a.content.blocks = d.blocks.map f := by
    rw [ha.content, parse_text]
  have hchosen : b.content.blocks = d.blocks.map g := by
    rw [hb.content, parse_text, blocks_choose h.keepsBlocks, List.map_map]
    rfl
  have hcode : ∀ p ∈ d.blocks, (f p).code = [] ↔ (g p).code = [] := fun p hp =>
    ⟨trim_text_choose, h.codes p hp⟩
  refine ⟨hname, ?_, ?_, fun stage => ?_, fun stage => ?_⟩
  · rw [ha.includes, hb.includes, includeNames_text h.aligned,
      includeNames_text (h.aligned.choose flags), names_choose h.keepsDirectives]
  · have := ChunkContent.defectsOf_map (f := f) (g := g) [] (fun _ _ => rfl) (fun _ _ => rfl) hcode
    simp only [Chunk.defects, ha.content, hb.content, parse_text, blocks_choose h.keepsBlocks,
      List.map_map]
    exact this
  · rw [Chunk.orderRule, Chunk.orderRule, hblocks, hchosen, ChunkContent.block?_map,
      ChunkContent.block?_map, Option.bind_map, Option.bind_map]
    rfl
  · rw [Chunk.code, Chunk.code, hblocks, hchosen]
    exact ChunkContent.codeOf_map_eq_nil_iff (f := f) (g := g) (fun _ _ => rfl) hcode stage

/-! ### What chunks contribute -/

/-- What a draft contributes has its entry markers on lines. -/
theorem IsSound.aligned_contributions {d : Draft} (h : d.IsSound flags) :
    ∀ e ∈ d.contributions, e.Aligned true := by
  intro e he
  rcases List.mem_cons.1 he with rfl | he
  · exact h.aligned.cut.strip
  · obtain ⟨p, hp, rfl⟩ := List.mem_map.1 he
    exact (h.aligned.of_mem_blocks hp).strip

/-- A text without directives, trimmed before or after they are taken out, presents its draft. -/
theorem exists_strip_text {d : Draft} (h : d.Aligned true) :
    ∃ a b, a.all isSpace = true ∧ b.all isSpace = true ∧
      d.strip.toMarkup.render = a ++ (stripIncludes (trim d.text) ++ b) := by
  obtain ⟨a, b, ha, hb, hab⟩ := exists_stripIncludes_trim d.text
  rw [stripIncludes_text h] at hab
  exact ⟨a, b, ha, hb, hab⟩

/-- **The shared text that a chunk adds to a program** presents a draft. -/
theorem presents_declarationText {d : Draft} (h : d.Aligned true) {c : Chunk}
    (hc : d.Describes c) : d.cut.strip.toMarkup.Presents (Composer.declarationText c) := by
  obtain ⟨a, b, ha, hb, hab⟩ := exists_strip_text h.cut
  have hshared : c.shared = trim d.cut.text := by
    rw [Chunk.shared, hc.content, parse_text]
  obtain ⟨u, v, hu, hv, huv⟩ := exists_trim (stripIncludes (trim d.cut.text))
  rw [Composer.declarationText, hshared]
  split
  · rename_i hnil
    refine .blank ?_
    rw [hab, huv, hnil]
    simp [ha, hb, hu, hv]
  · have hrender : d.cut.strip.toMarkup.render =
        (a ++ u) ++ (trim (stripIncludes (trim d.cut.text)) ++ (v ++ b)) := by
      rw [hab]
      conv_lhs => rw [huv]
      simp only [List.append_assoc]
    have hpresents := Markup.Presents.text (x := []) (v := ['\n']) rfl (by simp [ha, hu])
      (by simp [hb, hv]) (by decide) hrender
    rwa [List.nil_append] at hpresents

/-- **The code that a chunk contributes to a stage** presents a draft, with spaces around it. -/
theorem presents_code {d : Draft} (h : d.Aligned true) {x v : Text}
    (hx : x.all isSpace = true) (hv : v.all isSpace = true) :
    d.strip.toMarkup.Presents (x ++ (stripIncludes (trim d.text) ++ (v ++ ['\n']))) := by
  obtain ⟨a, b, ha, hb, hab⟩ := exists_strip_text h
  exact .text hx ha hb hv hab

/-- **The code of a chunk and of the one that flags choose** is that of the same block. -/
theorem IsSound.exists_code {d : Draft} (h : d.IsSound flags) {a b : Chunk} (ha : d.Describes a)
    (hb : (d.choose flags).Describes b) {stage : Stage} (hcode : a.code stage ≠ []) :
    ∃ p ∈ d.blocks, a.code stage = trim p.2.text ∧ b.code stage = trim (p.2.choose flags).text := by
  let f := fun p : BlockHead × Draft => (p.1.written p.2).read
  let g := fun p : BlockHead × Draft => (p.1.written (p.2.choose flags)).read
  have hwritten : a.code stage = (((d.blocks.filter fun p => p.1.stage = stage).getLast?).map
      fun p => (f p).code).getD [] := by
    rw [Chunk.code, ha.content, parse_text]
    exact ChunkContent.codeOf_map (f := f) stage
  have hchosen : b.code stage =
      (((d.blocks.filter fun p => p.1.stage = stage).getLast?).map fun p => (g p).code).getD [] := by
    rw [Chunk.code, hb.content, parse_text, blocks_choose h.keepsBlocks, List.map_map]
    exact ChunkContent.codeOf_map (f := g) stage
  rcases hlast : (d.blocks.filter fun p => p.1.stage = stage).getLast? with _ | p
  · rw [hlast] at hwritten
    exact absurd hwritten hcode
  · rw [hlast] at hwritten hchosen
    exact ⟨p, (List.mem_filter.1 (List.mem_of_getLast? hlast)).1, hwritten, hchosen⟩

end Draft

end ShaderWeave
