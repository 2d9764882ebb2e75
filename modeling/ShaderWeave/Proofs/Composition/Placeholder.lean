import ShaderWeave.Proofs.Chunk.Arrangement
import ShaderWeave.Proofs.Composition.Parts
import ShaderWeave.Proofs.Include.Removal

set_option autoImplicit false

/-!
# Placeholders and comments

The code of the chunks takes the place of each placeholder in the text of a template. The text is not
scanned for comments: a placeholder within a comment is replaced too, and code that ends in a line
comment takes what follows on its line into the comment. Where neither occurs the template keeps its
comments, and all the rest stays outside comments.

## Main definitions

* `ShaderWeave.Composer.splicePlaceholder` — lexemes with code in the place of each placeholder outside
  comments.

## Main results

* `ShaderWeave.Composer.assemble_splice` — what becomes of the comments of a template.
* `ShaderWeave.Composer.placeholder_in_comment_filled` — a placeholder in a comment, and text behind code
  that ends in one.
-/

namespace ShaderWeave

open Text Scan

namespace Composer

/-- The lexemes of a template with code in the place of each placeholder outside comments. -/
def splicePlaceholder (stage : Stage) (code : Text) (ls : List Lexeme) : List Lexeme :=
  splice '{' ('{' :: (stage.name.toList ++ ['}', '}'])) code ls

/-- A lexeme with the placeholders filled in within a comment. -/
def refillPlaceholder (stage : Stage) (code : Text) (l : Lexeme) : Lexeme :=
  l.refill '{' ('{' :: (stage.name.toList ++ ['}', '}'])) code

/-- A comment stays as it is exactly if it has no placeholder or the code is a placeholder itself. -/
theorem refillPlaceholder_comment_eq_iff {stage : Stage} {code t : Text} :
    refillPlaceholder stage code (.comment t) = .comment t ↔
      code = placeholder stage ∨ occurs (placeholder stage) t = false := by
  rw [refillPlaceholder, Lexeme.refill, Lexeme.comment.injEq]
  exact replaceAll_eq_self_iff

/-- The code of chunks leaves no block comment open if that of none of them does. -/
theorem openBehind_stageCode {stage : Stage} {chunks : List Chunk}
    (h : ∀ c ∈ chunks, openBehind (stripIncludes (c.code stage)) = false) :
    openBehind (stageCode stage chunks) = false := by
  refine openBehind_join fun u hu => ?_
  obtain ⟨v, hv, rfl⟩ := List.mem_map.1 hu
  obtain ⟨c, hc, rfl⟩ := List.mem_map.1 (List.mem_filter.1 hv).1
  exact h c hc

/-- **What becomes of the comments of a template.** Its placeholders are filled in outside comments and
within them: a comment stays as it is exactly if it has no placeholder, or the code is a placeholder
itself. If no comment has one and the code fits in the place of the placeholders, the lexemes of the
result are those of the template, each a comment or outside comments as before, with those of the code in
the place of the placeholders. The code fits if it cannot join with a `/` in front of a placeholder, and
if the line or the text ends behind each placeholder or the code is complete by itself. The directives are
cut out of the lexemes that the template had with them, unless one of them leaves a block comment open. -/
theorem assemble_splice (composer : Composer) (stage : Stage) (chunks : List Chunk) (s : Text)
    (hcodes : ∀ c ∈ chunks, openBehind (stripIncludes (c.code stage)) = false) :
    let body := stripIncludes s
    let code := stageCode stage (Chunk.arrange stage (chunks.filter (isRelevant stage))).value
    let filled := fillPlaceholder stage code body
    (composer.assemble (some stage) chunks s).value = chunks.flatMap declarationText ++ filled ∧
      filled = source (splicePlaceholder stage code
        ((lexemes body).map (refillPlaceholder stage code))) ∧
      (∀ t, .comment t ∈ lexemes body → (refillPlaceholder stage code (.comment t) = .comment t ↔
        code = placeholder stage ∨ occurs (placeholder stage) t = false)) ∧
      ((∀ t, .comment t ∈ lexemes body → occurs (placeholder stage) t = false) →
        Fits (placeholder stage) code (lexemes body) →
        lexemes filled = splicePlaceholder stage code (lexemes body)) ∧
      (Include.ClosesComments s → ∃ cut : List (List Lexeme × Option Text),
        lexemes s = cut.flatMap Prod.fst ∧
        lexemes body = (cut.filter (·.2.isNone)).flatMap Prod.fst ∧
        (cut.filter (·.2.isSome)).map (Prod.map source id) =
          (Include.directives s).filter (·.2.isSome)) := by
  intro body code filled
  have hslash : '/' ∉ placeholder stage := by cases stage <;> decide
  have hnewline : '\n' ∉ placeholder stage := by cases stage <;> decide
  have hcode : openBehind code = false :=
    openBehind_stageCode fun c hc => hcodes c (List.mem_filter.1 (Chunk.mem_arrange.1 hc)).1
  have hfilled : filled = source (splicePlaceholder stage code
      ((lexemes body).map (refillPlaceholder stage code))) :=
    replaceAll_eq_source_splice hslash hnewline body
  refine ⟨?_, hfilled, fun t _ => refillPlaceholder_comment_eq_iff, fun hcomments hfits => ?_,
    Include.lexemes_stripIncludes⟩
  · simp only [assemble, Logged.value_bind, Logged.value_pure]
    rfl
  · have hsame : (lexemes body).map (refillPlaceholder stage code) = lexemes body := by
      conv_rhs => rw [← List.map_id (lexemes body)]
      refine List.map_congr_left fun l hl => ?_
      cases l with
      | live c => rfl
      | comment t => exact refillPlaceholder_comment_eq_iff.2 (.inr (hcomments t hl))
    rw [hfilled, hsame]
    exact lexemes_source_splice hslash hnewline hcode hfits

/-! ### Templates with comments -/

/-- A chunk whose code ends in a line comment. -/
def lamp : Chunk :=
  .ofTemplate "lamp" "@fragment \x7b\x7b on();\nlit(); // warm\n \x7d\x7d"

/-- A strict composer with this chunk and an empty library. -/
def lighting : Composer :=
  ⟨⟨[lamp], Table.empty⟩, Table.empty, true, anonymous⟩

/-- A template with comments around its placeholder, which stands at the end of its line. -/
def evening : Text :=
  "#include <lamp>\n/* by day */ dim();\n  \x7b\x7bfragment\x7d\x7d\nend(); // night".toList

/-- The comments of the template stay, and the last one of the code ends with the line. -/
theorem assemble_splice_evening :
    (∀ c ∈ [lamp], openBehind (stripIncludes (c.code .fragment)) = false) ∧
      Include.ClosesComments evening ∧
      lexemes (fillPlaceholder .fragment "on();\nlit(); // warm".toList (stripIncludes evening)) =
        splicePlaceholder .fragment "on();\nlit(); // warm".toList (lexemes (stripIncludes evening)) ∧
      (lighting.assemble (some .fragment) [lamp] evening).value =
        "/* by day */ dim();\n  on();\nlit(); // warm\nend(); // night".toList := by
  have hcodes : ∀ c ∈ [lamp], openBehind (stripIncludes (c.code .fragment)) = false := by
    decide +kernel
  have hcode : stageCode .fragment
      (Chunk.arrange .fragment ([lamp].filter (isRelevant .fragment))).value =
        "on();\nlit(); // warm".toList := by
    decide +kernel
  have hcomments : ∀ t ∈ (lexemes (stripIncludes evening)).filterMap Lexeme.commentText?,
      occurs (placeholder .fragment) t = false := by
    decide +kernel
  obtain ⟨hvalue, -, -, hlexemes, -⟩ := assemble_splice lighting .fragment [lamp] evening hcodes
  rw [hcode] at hvalue hlexemes
  refine ⟨hcodes, by unfold Include.ClosesComments; decide +kernel,
    hlexemes (fun t ht => hcomments t (List.mem_filterMap.2 ⟨_, ht, rfl⟩))
      ⟨.inl ⟨'o', rfl, by decide⟩, .inr (by decide +kernel)⟩, ?_⟩
  rw [hvalue]
  decide +kernel

/-- A template with its placeholder in a comment, and once more outside. -/
def commented : Text :=
  "// \x7b\x7bfragment\x7d\x7d\n\x7b\x7bfragment\x7d\x7d\nend();".toList

/-- A template with text behind its placeholder. -/
def followed : Text :=
  "\x7b\x7bfragment\x7d\x7d end();".toList

/-- **A placeholder within a comment is filled in**: the comment ends with the first line of the code, and
the second one is no comment. And **text behind code that ends in a line comment** becomes part of it. -/
theorem placeholder_in_comment_filled :
    detectStage commented = some .fragment ∧ detectStage followed = some .fragment ∧
      openBehind (stripIncludes (lamp.code .fragment)) = false ∧
      .comment "// \x7b\x7bfragment\x7d\x7d\n".toList ∈ lexemes commented ∧
      (lighting.compose Table.empty ["lamp"] commented .empty).value.1 =
        .ok "// on();\nlit(); // warm\non();\nlit(); // warm\nend();".toList ∧
      .live 'e' ∈ lexemes followed ∧
      (lighting.compose Table.empty ["lamp"] followed .empty).value.1 =
        .ok "on();\nlit(); // warm end();".toList ∧
      .comment "// warm end();".toList ∈ lexemes "on();\nlit(); // warm end();".toList := by
  decide +kernel

end Composer

end ShaderWeave
