import ShaderWeave.Proofs.Bytewise.Binding
import ShaderWeave.Proofs.Bytewise.Chunk
import ShaderWeave.Proofs.Bytewise.Conditional
import ShaderWeave.Proofs.Bytewise.Include
import ShaderWeave.Proofs.Bytewise.Macro
import ShaderWeave.Proofs.Bytewise.Marker

set_option autoImplicit false

/-!
# Composition in bytes

The composition of a program, for a program that holds bytes: the template, the templates of chunks and
all that comes of them.

## Main definitions

* `ShaderWeave.Bytewise.collect` — the chunks that a text includes.
* `ShaderWeave.Bytewise.assemble` — a template with the chunks that it includes.
* `ShaderWeave.Bytewise.compose` — the program of a template.

## Main results

* `ShaderWeave.Bytewise.compose_utf8` — nothing goes wrong in a composition.
* `ShaderWeave.Bytewise.passes_never_split` — nor does it in any pass by itself; all that comes of them is
  the UTF-8 of texts.
-/

namespace ShaderWeave

namespace Bytewise

open Text Bytes Scan

/-! ### Collecting chunks -/

/-- What the template of a chunk holds. -/
def contentOf (c : Chunk) : Guarded ParsedTemplate :=
  parseTemplate (utf8 c.template.toList)

/-- The content of a chunk is read from its bytes without a fault. -/
theorem contentOf_eq (c : Chunk) : contentOf c = .ok (.ofContent c.content) := by
  rw [contentOf, parseTemplate_utf8, c.content_eq]

/-- The names that come up with a chunk. -/
theorem newNames_eq {scope : Scope} {name : String} {c : Chunk} {names : List String} (seen : List String)
    (hfind : scope.find? name = some c) (hnames : includeNames (utf8 c.template.toList) = .ok names) :
    names.filter (· ∉ seen) = scope.newNames seen name := by
  rw [includeNames_utf8, Except.ok.injEq] at hnames
  rw [Scope.newNames, Scope.includesOf, hfind, ← hnames]
  rfl

/-- **The chunks of the names in the queue**, and of those that their templates include, when the names in
`seen` have come up already. -/
def collectFrom (scope : Scope) (strict : Bool) (shader : String) (seen : List String) :
    (queue : List String) → Guarded (Except BuildError (List Chunk))
  | [] => return .ok []
  | name :: queue =>
    match _ : scope.find? name with
    | none =>
      if strict then return .error (.unresolvedChunk shader name)
      else collectFrom scope strict shader seen queue
    | some c => do
      let content ← contentOf c
      match if strict then content.defects.head? else none with
      | some defect => return .error (.malformedChunk c.name defect)
      | none =>
        match _ : includeNames (utf8 c.template.toList) with
        | .error e => throw e
        | .ok names =>
          let new := names.filter (· ∉ seen)
          let chunks ← collectFrom scope strict shader (seen ++ new) (queue ++ new)
          return chunks.map (c :: ·)
termination_by queue => (scope.unseen seen).length + queue.length
decreasing_by
  · simp
  · have hnew := newNames_eq (c := c) seen ‹_› ‹_›
    have := scope.unseen_add_length_le seen name
    simp only [List.length_append, List.length_cons, hnew]
    omega

/-- **The chunks that a text includes**, directly or not. -/
def collect (scope : Scope) (strict : Bool) (shader : String) (src : Bytes) :
    Guarded (Except BuildError (List Chunk)) := do
  let names ← includeNames src
  collectFrom scope strict shader names names

/-- What is collected on given visits. -/
def collected (strict : Bool) (shader : String) (visits : List (String × Option Chunk)) :
    Except BuildError (List Chunk) :=
  match if strict then visits.findSome? (Scope.error? shader) else none with
  | some e => .error e
  | none => .ok (visits.filterMap Prod.snd)

/-- One more visit in front of others. -/
theorem collected_cons (strict : Bool) (shader : String) (visit : String × Option Chunk)
    (visits : List (String × Option Chunk)) :
    collected strict shader (visit :: visits) =
      match if strict then Scope.error? shader visit else none with
      | some e => .error e
      | none => (collected strict shader visits).map (visit.2.toList ++ ·) := by
  cases strict with
  | false =>
    obtain ⟨name, c⟩ := visit
    cases c <;> rfl
  | true =>
    simp only [collected, if_true, List.findSome?_cons]
    cases Scope.error? shader visit with
    | some e => rfl
    | none =>
      cases visits.findSome? (Scope.error? shader) with
      | some e => rfl
      | none =>
        obtain ⟨name, c⟩ := visit
        cases c <;> rfl

/-- What is collected is decided by the visits. -/
theorem value_collect (scope : Scope) (strict : Bool) (shader : String) (s : Text) :
    (scope.collect strict shader s).value =
      collected strict shader (scope.visits (ShaderWeave.includeNames s)) := by
  rw [Scope.collect, collected]
  cases strict with
  | false => rfl
  | true =>
    simp only [if_true]
    cases (scope.visits (ShaderWeave.includeNames s)).findSome? (Scope.error? shader) <;> rfl

/-- **What is collected from a queue** is what is collected on the visits from there.

**Proof sketch.** Induction on the visits. A chunk is read without fault, and so are the names that its
template includes; the queue goes on with those that have not come up. -/
theorem collectFrom_eq (scope : Scope) (strict : Bool) (shader : String) (seen queue : List String) :
    collectFrom scope strict shader seen queue =
      .ok (collected strict shader (scope.visitsFrom seen queue)) := by
  fun_induction Scope.visitsFrom scope seen queue with
  | case1 =>
    rw [collectFrom]
    cases strict <;> rfl
  | case2 seen name queue ih =>
    rw [collectFrom, collected_cons]
    split
    · rename_i hfind
      have hnew : scope.newNames seen name = [] := by
        rw [Scope.newNames, Scope.includesOf, hfind]
        rfl
      rw [hnew, List.append_nil, List.append_nil] at ih
      rw [hfind, hnew, List.append_nil, List.append_nil, ih]
      cases strict with
      | true => rfl
      | false =>
        cases collected false shader (scope.visitsFrom seen queue) <;> rfl
    · rename_i c hfind
      have herror : (if strict then Scope.error? shader (name, some c) else none) =
          (if strict then (ParsedTemplate.ofContent c.content).defects.head? else none).map
            (.malformedChunk c.name) := by
        cases strict <;> rfl
      rw [hfind, contentOf_eq, herror]
      simp only [bind, Except.bind]
      split
      · rename_i d hd
        rw [hd]
        rfl
      · rename_i hd
        rw [hd]
        split
        · rename_i e hnames
          rw [includeNames_utf8] at hnames
          cases hnames
        · rename_i names hnames
          rw [newNames_eq seen hfind hnames, ih]
          rfl

/-- **The chunks that a text includes.** -/
theorem collect_utf8 (scope : Scope) (strict : Bool) (shader : String) (s : Text) :
    collect scope strict shader (utf8 s) = .ok (scope.collect strict shader s).value := by
  rw [collect, includeNames_utf8, value_collect]
  exact collectFrom_eq scope strict shader _ _

/-! ### Assembling -/

/-- Whether what a chunk holds takes part in the order of a stage. -/
def ParsedTemplate.isRelevant (stage : Stage) (content : ParsedTemplate) : Bool :=
  content.code stage ≠ [] || (StageSet.ofPred fun s => content.code s ≠ []).isEmpty

/-- The chunks that take part in the order of a stage. -/
def relevant (stage : Stage) (chunks : List Chunk) : Guarded (List Chunk) := do
  let marked ← chunks.mapM fun c => do
    let content ← contentOf c
    return (c, content.isRelevant stage)
  return (marked.filter Prod.snd).map Prod.fst

/-- The code that chunks contribute to a stage, in the given order. -/
def stageCode (stage : Stage) (sequence : List Chunk) : Guarded Bytes := do
  let codes ← sequence.mapM fun c => do
    let content ← contentOf c
    return content.code stage
  let codes ← (codes.filter (· ≠ [])).mapM stripIncludes
  return List.intercalate [ascii '\n'] codes

/-- The shared text that a chunk adds to a program. -/
def declarationText (c : Chunk) : Guarded Bytes := do
  let content ← contentOf c
  let shared ← stripIncludes content.shared
  let shared ← text shared
  return if trim shared = [] then [] else utf8 (trim shared ++ ['\n', '\n'])

/-- **A template with the chunks that it includes.** -/
def assemble (stage : Option Stage) (chunks : List Chunk) (src : Bytes) : Guarded Bytes := do
  let body ← stripIncludes src
  let body ← match stage with
    | some stage => do
      let chunks ← relevant stage chunks
      let code ← stageCode stage (Chunk.arrange stage chunks).value
      let code ← text code
      let body ← text body
      pure (utf8 (Composer.fillPlaceholder stage code body))
    | none => pure body
  let declarations ← chunks.mapM declarationText
  return declarations.flatten ++ body

/-- What becomes of a template once its chunks are in place. -/
def finish (composer : Composer) (flags : Flags) (src : Bytes) : Guarded Bytes := do
  let src ← expandEntries src
  let src ← expandConditionals flags src
  let src ← expandStructs composer.structs src
  substituteFlags flags src

/-- **The program of a template**, and the set of bindings with those of the program. -/
def compose (composer : Composer) (flags : Flags) (names : List String) (template : Bytes)
    (bindings : BindingSet) : Guarded (Except BuildError Bytes × BindingSet) := do
  let src ← expandConditionals flags template
  let src ← insertIncludes names src
  let stage ← detectStage src
  match ← collect composer.scope composer.strict composer.shader src with
  | .error e => return (.error e, bindings)
  | .ok chunks =>
    let src ← assemble stage chunks src
    let src ← finish composer flags src
    let bindings ← extractBindings stage src bindings
    return (.ok src, bindings)

/-- A chunk is relevant for a stage by its content in bytes if it is by its text. -/
theorem isRelevant_ofContent (stage : Stage) (c : Chunk) :
    (ParsedTemplate.ofContent c.content).isRelevant stage = Composer.isRelevant stage c := by
  simp only [ParsedTemplate.isRelevant, ParsedTemplate.ofContent, ne_eq, utf8_eq_nil_iff]
  rfl

/-- The relevant chunks are those that are by their texts. -/
theorem relevant_eq (stage : Stage) (chunks : List Chunk) :
    relevant stage chunks = .ok (chunks.filter (Composer.isRelevant stage)) := by
  have hmarked := mapM_ok (l := chunks) (f := fun c => do
      let content ← contentOf c
      return (c, content.isRelevant stage)) (g := fun c => (c, Composer.isRelevant stage c))
    fun c _ => by rw [contentOf_eq, ← isRelevant_ofContent]; rfl
  rw [relevant, hmarked]
  simp [bind, Except.bind, List.filter_map, Function.comp_def]
  rfl

/-- Texts one after the other, with a separator, in bytes. -/
theorem utf8_join (sep : Text) (parts : List Text) :
    utf8 (join sep parts) = List.intercalate (utf8 sep) (parts.map utf8) := by
  induction parts with
  | nil => rfl
  | cons p parts ih =>
    cases parts with
    | nil => simp [join]
    | cons q parts =>
      have hjoin : join sep (p :: q :: parts) = p ++ sep ++ join sep (q :: parts) := by simp [join]
      rw [hjoin, utf8_append, utf8_append, ih]
      simp

/-- **The code that chunks contribute to a stage.** -/
theorem stageCode_eq (stage : Stage) (sequence : List Chunk) :
    stageCode stage sequence = .ok (utf8 (Composer.stageCode stage sequence)) := by
  have hcodes := mapM_ok (l := sequence) (f := fun c => do
      let content ← contentOf c
      return content.code stage) (g := fun c => utf8 (c.code stage))
    fun c _ => by rw [contentOf_eq]; rfl
  have hfilter : (sequence.map fun c => utf8 (c.code stage)).filter (· ≠ []) =
      ((sequence.map (·.code stage)).filter (· ≠ [])).map utf8 := by
    rw [List.filter_map, List.filter_map, List.map_map]
    congr 1
    exact List.filter_congr fun c _ => by simp
  have hstrip := mapM_map_ok utf8 (l := (sequence.map (·.code stage)).filter (· ≠ []))
    fun t _ => stripIncludes_utf8 t
  rw [stageCode, hcodes]
  simp only [bind, Except.bind, hfilter, hstrip]
  rw [Composer.stageCode, utf8_join, List.map_map]
  rfl

/-- The shared text of a chunk is that in bytes. -/
theorem declarationText_eq (c : Chunk) :
    declarationText c = .ok (utf8 (Composer.declarationText c)) := by
  have hshared : (ParsedTemplate.ofContent c.content).shared = utf8 c.shared := rfl
  rw [declarationText, contentOf_eq]
  simp only [bind, Except.bind, hshared, stripIncludes_utf8, text_utf8, Composer.declarationText]
  split <;> rfl

/-- **A template with the chunks that it includes.** -/
theorem assemble_utf8 (composer : Composer) (stage : Option Stage) (chunks : List Chunk) (s : Text) :
    assemble stage chunks (utf8 s) = .ok (utf8 (composer.assemble stage chunks s).value) := by
  have hdeclarations := mapM_ok (l := chunks) fun c _ => declarationText_eq c
  have hflatten : utf8 (chunks.flatMap Composer.declarationText) =
      (chunks.map fun c => utf8 (Composer.declarationText c)).flatten := by
    rw [utf8, List.flatMap_assoc, List.flatMap_def]
    rfl
  rw [assemble, stripIncludes_utf8]
  cases stage with
  | none =>
    have hvalue : (composer.assemble none chunks s).value =
        chunks.flatMap Composer.declarationText ++ ShaderWeave.stripIncludes s := by
      by_cases hchunks : chunks ≠ [] <;> simp [Composer.assemble, hchunks]
    simp only [bind, Except.bind, pure, Except.pure, hdeclarations, ← hflatten, ← utf8_append, hvalue]
  | some stage =>
    simp only [bind, Except.bind, pure, Except.pure, relevant_eq, stageCode_eq, text_utf8, hdeclarations,
      ← hflatten, ← utf8_append]
    rfl

/-- The last passes over a program give the bytes of what they give for its text. -/
theorem finish_utf8 (composer : Composer) (flags : Flags) (s : Text) :
    finish composer flags (utf8 s) = .ok (utf8 (composer.finish flags s).value) := by
  rw [finish, expandEntries_utf8]
  simp only [bind, Except.bind, expandConditionals_utf8, expandStructs_utf8, substituteFlags_utf8]
  rfl

/-- **The program of a template.** Nothing goes wrong in a composition. -/
theorem compose_utf8 (composer : Composer) (flags : Flags) (names : List String) (template : Text)
    (bindings : BindingSet) :
    compose composer flags names (utf8 template) bindings =
      .ok ((composer.compose flags names template bindings).value.1.map utf8,
        (composer.compose flags names template bindings).value.2) := by
  rw [Composer.value_compose, compose, expandConditionals_utf8, Composer.prepared]
  simp only [bind, Except.bind, insertIncludes_utf8, detectStage_utf8, collect_utf8]
  cases (composer.scope.collect composer.strict composer.shader (ShaderWeave.insertIncludes names
      (ShaderWeave.expandConditionals flags template))).value with
  | error e => rfl
  | ok chunks =>
    simp only [assemble_utf8 composer, finish_utf8, extractBindings_utf8]
    rfl

/-! ### All passes -/

/-- **Scanning bytes never splits a character.** On the UTF-8 of any text, the expansion of conditionals,
the reading of a chunk template, a composition, the reading of bindings and the search for the stage come
to an end without a fault: wherever they cut, they do so in the text and between characters. What comes of
them is the UTF-8 of what they make of the text, and so is each part of it. The search for the brace that
matches an opening one does not close more than was opened. -/
theorem passes_never_split (s : Text) :
    (∀ flags, expandConditionals flags (utf8 s) = .ok (utf8 (ShaderWeave.expandConditionals flags s))) ∧
    parseTemplate (utf8 s) = .ok (.ofContent (ChunkContent.parse s)) ∧
    (∀ composer flags names bindings, compose composer flags names (utf8 s) bindings =
      .ok ((Composer.compose composer flags names s bindings).value.1.map utf8,
        (Composer.compose composer flags names s bindings).value.2)) ∧
    (∀ stage bindings, extractBindings stage (utf8 s) bindings =
      .ok (ShaderWeave.extractBindings stage s bindings).value) ∧
    detectStage (utf8 s) = .ok (ShaderWeave.detectStage s) ∧
    ∀ i, (utf8 s)[i]? = some (ascii '{') → ∃ close, findMatchingBrace (utf8 s) i = .ok close := by
  refine ⟨fun flags => expandConditionals_utf8 flags s, parseTemplate_utf8 s,
    fun composer flags names bindings => compose_utf8 composer flags names s bindings,
    fun stage bindings => extractBindings_utf8 stage s bindings, detectStage_utf8 s, fun i hi => ?_⟩
  obtain ⟨r, hr, rfl⟩ := exists_place_of_ascii (by decide) hi
  exact ⟨_, findMatchingBrace_place hr⟩

/-- The passes on a text with two characters of two bytes, of which one is in front of an opening brace. -/
theorem passes_never_split_umlauts :
    (utf8 "é\x7bü\x7d".toList)[2]? = some (ascii '{') ∧
      (∃ close, findMatchingBrace (utf8 "é\x7bü\x7d".toList) 2 = .ok close) ∧
      detectStage (utf8 "é\x7bü\x7d".toList) = .ok (ShaderWeave.detectStage "é\x7bü\x7d".toList) := by
  have h := passes_never_split "é\x7bü\x7d".toList
  exact ⟨by decide, h.2.2.2.2.2 2 (by decide), h.2.2.2.2.1⟩

end Bytewise

end ShaderWeave
