import ShaderWeave.Proofs.Chunk.Roles
import ShaderWeave.Proofs.Include.Place
import ShaderWeave.Proofs.Text.Replacing

set_option autoImplicit false

/-!
# The parts of a program

A program is the shared texts of its chunks and then the body of the template, in which the code of
the chunks stands in the place of each placeholder. Where placeholders stand on lines of their own, the
program is a list of parts that end their lines, and a last text. Programs of corresponding chunks have
corresponding parts.

## Main definitions

* `ShaderWeave.Composer.Part` — a part of a program, with the chunk that it comes from.
* `ShaderWeave.Composer.parts` — the parts of a program and its last text.
* `ShaderWeave.Composer.OwnLines` — placeholders stand on lines of their own.
* `ShaderWeave.Composer.Part.Corresponds` — parts that come from corresponding chunks.

## Main results

* `ShaderWeave.Composer.value_assemble` — the parts make up the program.
* `ShaderWeave.Composer.parts_corresponds` — programs of corresponding chunks have corresponding parts.
-/

namespace ShaderWeave

open Text Scan

namespace Text

/-- Lines behind which another one starts do all end in newlines. -/
theorem IsLines.getLast?_of_mem {ls : List Text} (h : IsLines ls) (hstarts : StartsLine ls.flatten) :
    ∀ l ∈ ls, l.getLast? = some '\n' := by
  induction h with
  | nil => simp
  | @last u hne hu =>
    rw [List.flatten_singleton] at hstarts
    have := List.getLast?_eq_some_getLast hne
    exact absurd (hstarts _ this ▸ List.getLast_mem hne) hu
  | @cons u ls _ _ ih =>
    rw [List.forall_mem_cons]
    exact ⟨List.getLast?_concat, ih hstarts.of_append⟩

end Text

namespace Composer

/-! ### The parts of a program -/

/-- **A part of a program**, with the chunk that it comes from, if it does not come from the template
itself. -/
structure Part where
  origin : Option Chunk
  text : Text

/-- The placeholder of a stage. -/
def placeholder (stage : Stage) : Text :=
  '{' :: '{' :: (stage.name.toList ++ ['}', '}'])

/-- **Placeholders stand on lines of their own.** -/
def OwnLines (stage : Stage) (body : Text) : Prop :=
  ∀ l ∈ lines body, occurs (placeholder stage) l = true → trim l = placeholder stage

/-- Whether placeholders stand on lines of their own can be computed. -/
instance (stage : Stage) (body : Text) : Decidable (OwnLines stage body) :=
  inferInstanceAs (Decidable (∀ l ∈ lines body, _))

/-- The shared texts of chunks. -/
def declarationParts (chunks : List Chunk) : List Part :=
  chunks.map fun c => ⟨some c, declarationText c⟩

/-- **The codes of chunks in the place of a placeholder**, with what stands on its line in front of it
and behind it. -/
def codeParts (stage : Stage) (tail : Text) : (lead : Text) → List Chunk → List Part
  | lead, [] => [⟨none, lead ++ tail⟩]
  | lead, [c] => [⟨some c, lead ++ (stripIncludes (c.code stage) ++ tail)⟩]
  | lead, c :: d :: cs =>
    ⟨some c, lead ++ (stripIncludes (c.code stage) ++ ['\n'])⟩ :: codeParts stage tail [] (d :: cs)

/-- **The parts of lines** with the codes of chunks in the place of placeholders, and what stands behind
the last one of these. Lines since the last placeholder are kept back. -/
def bodyParts (stage : Stage) (cs : List Chunk) : (kept : Text) → List Text → List Part × Text
  | kept, [] => ([], kept)
  | kept, l :: ls =>
    if trim l = placeholder stage then
      (⟨none, kept⟩ :: codeParts stage ((trimStart l).drop (placeholder stage).length)
        (l.takeWhile isSpace) cs ++ (bodyParts stage cs [] ls).1, (bodyParts stage cs [] ls).2)
    else bodyParts stage cs (kept ++ l) ls

/-- **The parts of a program** of chunks and the body of a template, and what stands behind them. -/
def parts (stage : Option Stage) (chunks : List Chunk) (body : Text) : List Part × Text :=
  match stage with
  | none => (declarationParts chunks, body)
  | some stage =>
    let cs := (Chunk.arrange stage (chunks.filter (isRelevant stage))).value.filter
      (·.code stage ≠ [])
    (declarationParts chunks ++ (bodyParts stage cs [] (lines body)).1,
      (bodyParts stage cs [] (lines body)).2)

/-- The codes make up what takes the place of a placeholder. -/
theorem flatMap_codeParts (stage : Stage) (tail lead : Text) (cs : List Chunk) :
    (codeParts stage tail lead cs).flatMap Part.text =
      lead ++ (join ['\n'] (cs.map fun c => stripIncludes (c.code stage)) ++ tail) := by
  fun_induction codeParts stage tail lead cs with
  | case1 => simp [join]
  | case2 => simp [join]
  | case3 lead c d cs ih =>
    rw [List.flatMap_cons, ih]
    simp [join]

/-- The line of a placeholder has spaces around it and a newline. -/
theorem exists_of_trim_eq {stage : Stage} {l : Text} (htrim : trim l = placeholder stage)
    (hends : l.getLast? = some '\n') :
    ∃ a b, a.all isSpace = true ∧ b.all isSpace = true ∧
      l = a ++ (placeholder stage ++ (b ++ ['\n'])) ∧ l.takeWhile isSpace = a ∧
      (trimStart l).drop (placeholder stage).length = b ++ ['\n'] := by
  obtain ⟨a, b, ha, hb, hl⟩ := exists_trim l
  rw [htrim] at hl
  rcases List.eq_nil_or_concat b with rfl | ⟨b, d, rfl⟩
  · rw [hl, List.append_nil, List.getLast?_append] at hends
    cases stage <;> cases hends
  · rw [List.concat_eq_append] at hl hb
    obtain rfl : d = '\n' := by
      rw [hl, ← List.append_assoc, ← List.append_assoc, List.getLast?_concat] at hends
      exact Option.some.inj hends
    have hfirst : ∀ c ∈ (placeholder stage ++ (b ++ ['\n'])).head?, isSpace c = false := by
      intro c hc
      obtain rfl : '{' = c := by simpa [placeholder] using hc
      decide
    rw [List.all_append, Bool.and_eq_true] at hb
    refine ⟨a, b, ha, hb.1, hl, ?_, ?_⟩
    · rw [hl, List.takeWhile_append_of_pos (List.all_eq_true.1 ha), placeholder, List.cons_append,
        List.takeWhile_cons_of_neg (by decide), List.append_nil]
    · rw [hl, trimStart_append ha, trimStart_eq_self hfirst, List.drop_left]

section

variable {stage : Stage} {ls : List Text}

/-- **The parts of lines make up their text** with the codes in the place of placeholders. -/
theorem flatMap_bodyParts (cs : List Chunk) (kept : Text)
    (hends : ∀ l ∈ ls, l.getLast? = some '\n')
    (hown : ∀ l ∈ ls, occurs (placeholder stage) l = true → trim l = placeholder stage) :
    (bodyParts stage cs kept ls).1.flatMap Part.text ++ (bodyParts stage cs kept ls).2 =
      kept ++ ls.flatMap (fillPlaceholder stage
        (join ['\n'] (cs.map fun c => stripIncludes (c.code stage)))) := by
  induction ls generalizing kept with
  | nil => simp [bodyParts]
  | cons l ls ih =>
    rw [List.forall_mem_cons] at hends hown
    rw [bodyParts]
    split
    · rename_i htrim
      obtain ⟨a, b, ha, hb, hl, hlead, htail⟩ := exists_of_trim_eq htrim hends.1
      have hfill : fillPlaceholder stage (join ['\n'] (cs.map fun c => stripIncludes (c.code stage)))
          (a ++ (placeholder stage ++ (b ++ ['\n']))) = _ :=
        replaceAll_between (by decide) ha (by simp [hb]; decide)
      have hrest := ih [] hends.2 hown.2
      rw [List.nil_append] at hrest
      rw [hlead, htail, List.flatMap_append, List.flatMap_cons, flatMap_codeParts, List.append_assoc,
        hrest, List.flatMap_cons, hl, hfill]
      simp
    · rename_i htrim
      have hoccurs : occurs (placeholder stage) l = false :=
        Bool.eq_false_iff.2 fun hoccurs => htrim (hown.1 hoccurs)
      rw [ih _ hends.2 hown.2, List.flatMap_cons, List.append_assoc, fillPlaceholder,
        replaceAll_of_occurs hoccurs]

end

/-- The lines of a text with a newline at its end do all end in one. -/
theorem getLast?_of_mem_lines (s : Text) : ∀ l ∈ lines (s ++ ['\n']), l.getLast? = some '\n' := by
  refine (isLines_lines _).getLast?_of_mem ?_
  rw [flatten_lines]
  simp [StartsLine]

/-- **The parts make up the program**, with a newline at its end. -/
theorem value_assemble (composer : Composer) (stage : Option Stage) (chunks : List Chunk) (s : Text)
    (h : ∀ st ∈ stage, OwnLines st (stripIncludes s ++ ['\n'])) :
    (composer.assemble stage chunks s).value ++ ['\n'] =
      (parts stage chunks (stripIncludes s ++ ['\n'])).1.flatMap Part.text ++
        (parts stage chunks (stripIncludes s ++ ['\n'])).2 := by
  have hdeclarations : (declarationParts chunks).flatMap Part.text =
      chunks.flatMap declarationText := by
    rw [declarationParts, List.flatMap_map]
  cases stage with
  | none =>
    rw [parts, hdeclarations]
    by_cases hchunks : chunks ≠ [] <;> simp [assemble, hchunks]
  | some stage =>
    have hcodes : stageCode stage (Chunk.arrange stage (chunks.filter (isRelevant stage))).value =
        join ['\n'] (((Chunk.arrange stage (chunks.filter (isRelevant stage))).value.filter
          (·.code stage ≠ [])).map fun c => stripIncludes (c.code stage)) := by
      rw [stageCode, List.filter_map, List.map_map]
      rfl
    have hbody := flatMap_bodyParts ((Chunk.arrange stage
      (chunks.filter (isRelevant stage))).value.filter (·.code stage ≠ [])) []
      (getLast?_of_mem_lines (stripIncludes s)) (h stage rfl)
    rw [List.nil_append, ← hcodes] at hbody
    have hnewline : '\n' ∉ placeholder stage := by cases stage <;> decide
    have hfill := flatMap_replaceAll_lines hnewline
      (stageCode stage (Chunk.arrange stage (chunks.filter (isRelevant stage))).value)
      (stripIncludes s ++ ['\n'])
    rw [replaceAll_append_cons hnewline, replaceAll_nil] at hfill
    rw [parts, List.flatMap_append, hdeclarations, List.append_assoc, hbody]
    simp only [assemble, Logged.value_bind, Logged.value_pure]
    rw [fillPlaceholder, List.append_assoc]
    exact congrArg _ hfill.symm

/-! ### Parts of corresponding chunks -/

/-- **Parts that come from corresponding chunks**, or that are the same lines of a template. -/
inductive Part.Corresponds (R : Chunk → Chunk → Prop) : Part → Part → Prop
  | host {u : Text} (hu : StartsLine u) : Corresponds R ⟨none, u⟩ ⟨none, u⟩
  | declaration {c d : Chunk} (h : R c d) :
      Corresponds R ⟨some c, declarationText c⟩ ⟨some d, declarationText d⟩
  | code {c d : Chunk} (h : R c d) {stage : Stage} (hcode : c.code stage ≠ []) {a b : Text}
      (ha : a.all isSpace = true) (hb : b.all isSpace = true) :
      Corresponds R ⟨some c, a ++ (stripIncludes (c.code stage) ++ (b ++ ['\n']))⟩
        ⟨some d, a ++ (stripIncludes (d.code stage) ++ (b ++ ['\n']))⟩

variable {R : Chunk → Chunk → Prop}

/-- The shared text that a chunk adds ends in an empty line, so a line starts behind it. -/
theorem startsLine_declarationText (c : Chunk) : StartsLine (declarationText c) := by
  rw [declarationText]
  split
  · exact startsLine_nil
  · intro d hd
    simpa using hd.symm

/-- A line starts behind each part. -/
theorem Part.Corresponds.startsLine {p q : Part} (h : p.Corresponds R q) :
    StartsLine p.text ∧ StartsLine q.text := by
  cases h with
  | host hu => exact ⟨hu, hu⟩
  | declaration => exact ⟨startsLine_declarationText _, startsLine_declarationText _⟩
  | code => constructor <;> simp [StartsLine]

/-- The codes of corresponding chunks are corresponding parts. -/
theorem codeParts_corresponds {stage : Stage} {cs ds : List Chunk} (h : List.Forall₂ R cs ds)
    (hcode : ∀ c ∈ cs, c.code stage ≠ []) {a b : Text} (ha : a.all isSpace = true)
    (hb : b.all isSpace = true) :
    List.Forall₂ (Part.Corresponds R) (codeParts stage (b ++ ['\n']) a cs)
      (codeParts stage (b ++ ['\n']) a ds) := by
  induction h generalizing a with
  | nil => exact .cons (.host (by simp [StartsLine])) .nil
  | @cons c d cs ds hcd h ih =>
    have hc := hcode c List.mem_cons_self
    have hrest := ih (fun e he => hcode e (List.mem_cons_of_mem _ he)) (a := []) rfl
    cases h with
    | nil => exact .cons (.code hcd hc ha hb) .nil
    | cons => exact .cons (.code hcd hc ha (b := []) rfl) hrest

/-- **The parts of lines correspond** if the chunks whose codes stand in them do. -/
theorem bodyParts_corresponds {stage : Stage} {cs ds : List Chunk} (h : List.Forall₂ R cs ds)
    (hcode : ∀ c ∈ cs, c.code stage ≠ []) {ls : List Text} {kept : Text} (hkept : StartsLine kept)
    (hends : ∀ l ∈ ls, l.getLast? = some '\n') :
    List.Forall₂ (Part.Corresponds R) (bodyParts stage cs kept ls).1
        (bodyParts stage ds kept ls).1 ∧
      (bodyParts stage cs kept ls).2 = (bodyParts stage ds kept ls).2 := by
  induction ls generalizing kept with
  | nil => exact ⟨.nil, rfl⟩
  | cons l ls ih =>
    rw [List.forall_mem_cons] at hends
    rw [bodyParts, bodyParts]
    split
    · rename_i htrim
      obtain ⟨a, b, ha, hb, -, hlead, htail⟩ := exists_of_trim_eq htrim hends.1
      obtain ⟨hparts, hlast⟩ := ih startsLine_nil hends.2
      rw [hlead, htail]
      exact ⟨.cons (.host hkept) (List.rel_append (codeParts_corresponds h hcode ha hb) hparts), hlast⟩
    · refine ih (fun c hc => ?_) hends.2
      rw [List.getLast?_append, hends.1] at hc
      exact (Option.some.inj hc).symm

/-- **Programs of corresponding chunks have corresponding parts**, and the same text behind them. -/
theorem parts_corresponds (hR : ∀ c d, R c d → c.SameRole d) {stage : Option Stage}
    {cs ds : List Chunk} (h : List.Forall₂ R cs ds) (s : Text) :
    List.Forall₂ (Part.Corresponds R) (parts stage cs (s ++ ['\n'])).1
        (parts stage ds (s ++ ['\n'])).1 ∧
      (parts stage cs (s ++ ['\n'])).2 = (parts stage ds (s ++ ['\n'])).2 := by
  have hdeclarations : List.Forall₂ (Part.Corresponds R) (declarationParts cs)
      (declarationParts ds) := by
    rw [declarationParts, declarationParts]
    exact List.rel_map (fun _ _ hcd => .declaration hcd) h
  cases stage with
  | none => exact ⟨hdeclarations, rfl⟩
  | some stage =>
    have hrelevant : List.Forall₂ R (cs.filter (isRelevant stage)) (ds.filter (isRelevant stage)) :=
      List.rel_filter (fun c d hcd => by simp only [(hR c d hcd).isRelevant stage]) h
    have harranged := Chunk.arrange_corresponds hR stage hrelevant
    have hcoded : List.Forall₂ R
        ((Chunk.arrange stage (cs.filter (isRelevant stage))).value.filter (·.code stage ≠ []))
        ((Chunk.arrange stage (ds.filter (isRelevant stage))).value.filter (·.code stage ≠ [])) :=
      List.rel_filter (fun c d hcd => by simp [(hR c d hcd).code stage]) harranged
    obtain ⟨hparts, hlast⟩ := bodyParts_corresponds hcoded
      (fun c hc => by simpa using (List.mem_filter.1 hc).2) startsLine_nil (getLast?_of_mem_lines s)
    exact ⟨List.rel_append hdeclarations hparts, hlast⟩

end Composer

end ShaderWeave
