import ShaderWeave.Proofs.Chunk.Choice
import ShaderWeave.Proofs.Composition.LastNewline
import ShaderWeave.Proofs.Include.Strictness

set_option autoImplicit false

/-!
# Composition before and after the choice

The conditionals of a chunk are expanded once the chunk is part of a program. They could as well be
expanded before: the program with the chunk as it is written and the program with the chunk that the
flags choose are the same but for spaces. This takes that the flags discard no stage block and no
directive, since a chunk is taken apart before the flags are known, and that the other parts of the
program keep to themselves.

## Main definitions

* `ShaderWeave.Composer.register` — a composer with one more chunk.
* `ShaderWeave.Composer.Hosts` — a program whose other parts keep to themselves.

## Main results

* `ShaderWeave.Composer.unspaced_finish` — texts that expand alike are the same programs but for spaces.
* `ShaderWeave.Composer.compose_choose` — a chunk as it is written and the one that flags choose give
  the same program but for spaces.
* `ShaderWeave.Composer.not_isIndifferent` — they do not where one of the conditions fails.
-/

namespace ShaderWeave

open Text Scan

namespace Composer

variable {flags : Flags}

/-- **A composer with one more chunk** in its library. -/
def register (composer : Composer) (name template : String) : Composer :=
  { composer with scope :=
    { composer.scope with library := (composer.scope.library.addTemplate name template).value } }

/-- Registering a chunk leaves whether the composer is strict. -/
@[simp] theorem register_strict (composer : Composer) (name template : String) :
    (composer.register name template).strict = composer.strict :=
  rfl

/-- Registering a chunk leaves the name of the shader. -/
@[simp] theorem register_shader (composer : Composer) (name template : String) :
    (composer.register name template).shader = composer.shader :=
  rfl

/-- The body of a template, with a newline at its end. -/
def body (flags : Flags) (names : List String) (template : Text) : Text :=
  stripIncludes (prepared flags names template) ++ ['\n']

/-- **A program whose other parts keep to themselves**: those that do not come from the given chunk.
Placeholders stand on lines of their own. -/
structure Hosts (composer : Composer) (flags : Flags) (names : List String) (template : Text)
    (chunk : Chunk) : Prop where
  ownLines : ∀ stage ∈ detectStage (prepared flags names template),
    OwnLines stage (body flags names template)
  /-- Each other part is self-contained. -/
  selfContained : ∀ cs, (composer.scope.collect composer.strict composer.shader
      (prepared flags names template)).value = .ok cs →
    ∀ p ∈ (parts (detectStage (prepared flags names template)) cs (body flags names template)).1,
      p.origin ≠ some chunk → p.text = [] ∨ SelfContained flags (expandEntries p.text)
  /-- What stands behind all parts does not go on with `else`. -/
  noElse : ∀ cs, (composer.scope.collect composer.strict composer.shader
      (prepared flags names template)).value = .ok cs →
    Markup.startsWithElse (expandEntries (parts (detectStage (prepared flags names template)) cs
      (body flags names template)).2) = false

/-- Whether a part of a program ends its last line and has neither comments nor conditionals. -/
def Part.isPlain (p : Part) : Bool :=
  let u := expandEntries p.text
  u.getLast? = some '\n' && isUncommented u && isClearOf ['#', 'i', 'f'] u && !Markup.startsWithElse u

/-- Such a part is self-contained. -/
theorem Part.selfContained_of_isPlain {p : Part} (h : p.isPlain = true) (flags : Flags) :
    SelfContained flags (expandEntries p.text) := by
  simp only [isPlain, Bool.and_eq_true, decide_eq_true_eq, Bool.not_eq_true'] at h
  obtain ⟨⟨⟨hends, huncommented⟩, hunconditional⟩, helse⟩ := h
  obtain ⟨g, hg⟩ := List.getLast?_eq_some_iff.1 hends
  refine ⟨helse, by simp [StartsLine, hg], g, ?_⟩
  rw [← hg]
  exact (inert_of_isUncommented huncommented hunconditional).expandsTo flags

/-- Whether the parts of a program that do not come from a chunk are plain, and what stands behind
them does not go on with `else`. -/
def isPlainBeside (chunk : Chunk) (p : List Part × Text) : Bool :=
  (p.1.all fun part => part.origin = some chunk || part.text = [] || part.isPlain) &&
    !Markup.startsWithElse (expandEntries p.2)

/-- Plain parts keep to themselves. -/
theorem Hosts.of_isPlainBeside {composer : Composer} {names : List String} {template : Text}
    {chunk : Chunk} (hown : ∀ stage ∈ detectStage (prepared flags names template),
      OwnLines stage (body flags names template))
    (hplain : ∀ cs, (composer.scope.collect composer.strict composer.shader
        (prepared flags names template)).value = .ok cs →
      isPlainBeside chunk (parts (detectStage (prepared flags names template)) cs
        (body flags names template)) = true) :
    composer.Hosts flags names template chunk where
  ownLines := hown
  selfContained := by
    intro cs hcs p hp horigin
    have := List.all_eq_true.1 (Bool.and_eq_true_iff.1 (hplain cs hcs)).1 p hp
    simp only [Bool.or_eq_true, decide_eq_true_eq] at this
    rcases this with (h | h) | h
    · exact absurd h horigin
    · exact .inl h
    · exact .inr (p.selfContained_of_isPlain h flags)
  noElse := by
    intro cs hcs
    simpa using (Bool.and_eq_true_iff.1 (hplain cs hcs)).2

/-! ### Finishing respaced programs -/

/-- **Texts that expand alike are the same programs but for spaces.** -/
theorem unspaced_finish (composer : Composer) {s t : Text}
    (h : Alike flags (expandEntries (s ++ ['\n'])) (expandEntries (t ++ ['\n']))) :
    unspaced (composer.finish flags s).value = unspaced (composer.finish flags t).value := by
  have hnewline : ['\n'].all isSpace = true := by decide
  have hstruct : Respaced
      ('\n' :: expandStructs composer.structs (expandConditionals flags (expandEntries (s ++ ['\n']))))
      ('\n' :: expandStructs composer.structs (expandConditionals flags (expandEntries (t ++ ['\n'])))) := by
    have hbehind : ∀ u, expandStructs composer.structs ('\n' :: u) =
        '\n' :: expandStructs composer.structs u := fun u =>
      MacroForm.replace_spaces_append MacroForm.isTight_struct hnewline u
    rw [← hbehind, ← hbehind]
    exact MacroForm.replace_respaced MacroForm.isTight_struct h.respaced
  have hflag : Respaced (substituteFlags flags ('\n' :: _)) (substituteFlags flags ('\n' :: _)) :=
    MacroForm.replace_respaced MacroForm.isTight_flag hstruct
  have hbehind : ∀ u, substituteFlags flags ('\n' :: u) = '\n' :: substituteFlags flags u := fun u =>
    MacroForm.replace_spaces_append MacroForm.isTight_flag hnewline u
  rw [hbehind, hbehind] at hflag
  have hfinish : unspaced (composer.finish flags (s ++ ['\n'])).value =
      unspaced (composer.finish flags (t ++ ['\n'])).value := hflag.unspaced_eq
  have hlast : ∀ u, unspaced (u ++ ['\n']) = unspaced u := fun u => by
    rw [unspaced_append, unspaced_of_all hnewline, List.append_nil]
  rwa [value_finish_append_newline, value_finish_append_newline, hlast, hlast] at hfinish

/-! ### Parts before and after the choice -/

/-- Where entry markers are written out, a part that presents a contribution of a chunk goes on with
`else` no more than what follows it. -/
theorem startsWithElse_contribution {e : Draft} {p s : Text} (hp : e.toMarkup.Presents p)
    (helse : Markup.startsWithElse (trimStart e.text) = false)
    (hs : Markup.startsWithElse s = false) : Markup.startsWithElse (expandEntries p ++ s) = false :=
  Markup.startsWithElse_append_of_startsLine (startsLine_expandEntries hp.startsLine)
    (startsWithElse_expandEntries (hp.startsWithElse_eq helse)) hs

/-- **Parts that present a contribution of a chunk**, as it is written and as it may be chosen, expand
alike.

**Proof sketch.** With their entry markers written out the parts present, but for breaks, the trees in
which the markers are. These have the same value, since the choice does not matter to the markers. -/
theorem alike_contribution {d e : Draft} (hd : d.IsSound flags) (he : e ∈ d.contributions)
    {p q s t : Text} (hp : e.toMarkup.Presents p)
    (hq : e.toMarkup.Presents q ∨ (e.choose flags).toMarkup.Presents q) (h : Alike flags s t) :
    Alike flags (expandEntries p ++ s) (expandEntries q ++ t) := by
  have haligned := hd.aligned_contributions e he
  have hstray := hd.noStrayElse_contributions e he
  obtain ⟨helse, helse'⟩ := hd.noElse e he
  obtain ⟨p', hp', hpp'⟩ := Draft.exists_presents_expanded haligned hp
  rcases hq with hq | hq
  · obtain ⟨q', hq', hqq'⟩ := Draft.exists_presents_expanded haligned hq
    refine ⟨startsWithElse_contribution hp helse h.left, startsWithElse_contribution hq helse h.right,
      (hpp' flags s).trans (.trans ?_ (hqq' flags t).symm)⟩
    exact hp'.respaced hq' (Draft.noStrayElse_expanded hstray) (Draft.noStrayElse_expanded hstray) rfl h
  · obtain ⟨q', hq', hqq'⟩ := Draft.exists_presents_expanded (haligned.choose flags) hq
    refine ⟨startsWithElse_contribution hp helse h.left, startsWithElse_contribution hq helse' h.right,
      (hpp' flags s).trans (.trans ?_ (hqq' flags t).symm)⟩
    exact hp'.respaced hq' (Draft.noStrayElse_expanded hstray)
      (Draft.noStrayElse_expanded (Draft.isFree_choose e).noStrayElse)
      (Draft.eval_expanded_choose e).symm h

section

variable {d : Draft} {w c : Chunk}

/-- A chunk as it is written stands for itself or for the one that flags choose; all others stand for
themselves. -/
def Chosen (w c a b : Chunk) : Prop :=
  a = b ∨ (a = w ∧ b = c)

/-- The chunk as it is written and the one that flags choose have the same role. -/
theorem Chosen.sameRole (hd : d.IsSound flags) (hw : d.Describes w) (hc : (d.choose flags).Describes c)
    (hname : w.name = c.name) (a b : Chunk) (h : Chosen w c a b) : a.SameRole b := by
  rcases h with rfl | ⟨rfl, rfl⟩
  · exact .refl a
  · exact hd.sameRole hw hc hname

/-- **A part and the one that corresponds to it expand alike.** -/
theorem alike_part (hd : d.IsSound flags) (hw : d.Describes w) (hc : (d.choose flags).Describes c)
    {p q : Part} (hpq : p.Corresponds (Chosen w c) q)
    (hself : p.origin ≠ some w → p.text = [] ∨ SelfContained flags (expandEntries p.text))
    {s t : Text} (h : Alike flags s t) :
    Alike flags (expandEntries p.text ++ s) (expandEntries q.text ++ t) := by
  have hsame : ∀ {u : Text}, u = [] ∨ SelfContained flags (expandEntries u) →
      Alike flags (expandEntries u ++ s) (expandEntries u ++ t) := by
    rintro u (rfl | hu)
    · exact h
    · exact hu.alike h
  cases hpq with
  | host => exact hsame (hself (by simp))
  | @declaration a b hab =>
    -- the shared text of the chunk itself, as it is written or with the choice made
    by_cases ha : a = w
    · subst ha
      have hmem : d.cut.strip ∈ d.contributions := List.mem_cons_self
      have hp := Draft.presents_declarationText hd.aligned hw
      refine alike_contribution hd hmem hp ?_ h
      rcases hab with rfl | ⟨-, rfl⟩
      · exact .inl hp
      · have hq := Draft.presents_declarationText (hd.aligned.choose flags) hc
        rw [Draft.cut_choose, Draft.strip_choose] at hq
        exact .inr hq
    · -- the shared text of another chunk
      obtain rfl : a = b := hab.resolve_right fun hab => ha hab.1
      exact hsame (hself (by simpa using ha))
  | @code a b hab stage hcode x v hx hv =>
    by_cases ha : a = w
    · -- the code of one of its blocks
      subst ha
      obtain ⟨k, hk, hwritten, hchosen⟩ := hd.exists_code hw hc hcode
      have haligned := hd.aligned.of_mem_blocks hk
      have hmem : k.2.strip ∈ d.contributions :=
        List.mem_cons_of_mem _ (List.mem_map.2 ⟨k, hk, rfl⟩)
      have hp := Draft.presents_code haligned hx hv
      rw [← hwritten] at hp
      refine alike_contribution hd hmem hp ?_ h
      rcases hab with rfl | ⟨-, rfl⟩
      · exact .inl hp
      · have hq := Draft.presents_code (haligned.choose flags) hx hv
        rw [← hchosen, Draft.strip_choose] at hq
        exact .inr hq
    · -- the code of another chunk
      obtain rfl : a = b := hab.resolve_right fun hab => ha hab.1
      exact hsame (hself (by simpa using ha))

/-- **Parts that correspond to each other expand alike**, one behind the other. -/
theorem alike_parts (hd : d.IsSound flags) (hw : d.Describes w) (hc : (d.choose flags).Describes c)
    {ps qs : List Part} (hpq : List.Forall₂ (Part.Corresponds (Chosen w c)) ps qs)
    (hself : ∀ p ∈ ps, p.origin ≠ some w →
      p.text = [] ∨ SelfContained flags (expandEntries p.text))
    {last : Text} (hlast : Markup.startsWithElse (expandEntries last) = false) :
    Alike flags (expandEntries (ps.flatMap Part.text ++ last))
      (expandEntries (qs.flatMap Part.text ++ last)) := by
  induction hpq with
  | nil => exact .refl hlast
  | @cons p q ps qs hpq _ ih =>
    rw [List.flatMap_cons, List.flatMap_cons, List.append_assoc, List.append_assoc,
      expandEntries_append hpq.startsLine.1, expandEntries_append hpq.startsLine.2]
    exact alike_part hd hw hc hpq (hself p List.mem_cons_self)
      (ih fun r hr => hself r (List.mem_cons_of_mem _ hr))

end

/-! ### The composition -/

/-- The same names have the same chunks with a chunk and with another one in its place, but for these
two. -/
theorem register_corresponds (composer : Composer) (name written chosen : String) :
    (composer.register name written).scope.Corresponds
      (Chosen (.ofTemplate name written) (.ofTemplate name chosen))
      (composer.register name chosen).scope := by
  intro n
  have hfind : ∀ template, (composer.register name template).scope.find? n =
      (composer.scope.inline.find? (·.name = n)).or
        (if name = n then some (.ofTemplate name template) else composer.scope.library.get? n) := by
    intro template
    rw [Scope.find?, Library.find?, register, Library.addTemplate, Logged.value_bind,
      Library.value_add, Table.get?_insert]
    rfl
  rw [hfind, hfind]
  cases composer.scope.inline.find? (·.name = n) with
  | some c => exact .some (.inl rfl)
  | none =>
    rw [Option.none_or, Option.none_or]
    by_cases hname : name = n
    · rw [if_pos hname, if_pos hname]
      exact .some (.inr ⟨rfl, rfl⟩)
    · rw [if_neg hname, if_neg hname]
      cases composer.scope.library.get? n with
      | none => exact .none
      | some c => exact .some (.inl rfl)

/-- **A chunk as it is written and the one that flags choose give the same program but for spaces**, or
the same error.

**Proof sketch.** Both chunks play the same role, so the same chunks are collected and arranged but for
the one, and the programs are made of corresponding parts. A part that does not come from the chunk is
in both programs and keeps to itself. One that does presents a tree in the one program and, in the
other, the tree that the flags choose from it, which has the same value. So the conditionals of both
programs expand to the same text but for the spaces around these parts, and macros do not see spaces. -/
theorem compose_choose (composer : Composer) (flags : Flags) (names : List String) (template : Text)
    (bindings : BindingSet) (name : String) {d : Draft} {chunk : Text} (hd : d.IsSound flags)
    (htext : d.HasText chunk)
    (hosts : (composer.register name (.ofList chunk)).Hosts flags names template
      (.ofTemplate name (.ofList chunk))) :
    ((composer.register name (.ofList chunk)).compose flags names template
        bindings).value.1.map unspaced =
      ((composer.register name (.ofList (expandConditionals flags chunk))).compose flags names
        template bindings).value.1.map unspaced := by
  have hw := htext.describes name
  have hc := (htext.expandConditionals hd).describes name
  have hR := Chosen.sameRole hd hw hc rfl
  rw [value_compose, value_compose]
  simp only [register_strict, register_shader]
  rcases (register_corresponds composer name (.ofList chunk)
    (.ofList (expandConditionals flags chunk))).collect hR composer.strict composer.shader
    (prepared flags names template) with ⟨e, hwritten, hchosen⟩ | ⟨cs, ds, hwritten, hchosen, h⟩
  · rw [hwritten, hchosen]
  · rw [hwritten, hchosen]
    obtain ⟨hparts, hlast⟩ := parts_corresponds hR h (stripIncludes (prepared flags names template))
    have halike := alike_parts hd hw hc hparts (hosts.selfContained cs hwritten)
      (hosts.noElse cs hwritten)
    refine congrArg Except.ok (unspaced_finish _ ?_)
    rw [value_assemble _ _ _ _ hosts.ownLines, value_assemble _ _ _ _ hosts.ownLines]
    exact hlast ▸ halike

/-! ### A chunk with a conditional -/

/-- The body of a stage block, with a conditional. -/
def toneCode : Draft :=
  .plain { text := " ".toList }
    (.either { gap := [' '], flag := "HDR".toList, pad := [' '] }
      (.plain { text := "high();".toList } .done) { gap := [' '], pad := [' '] }
      (.plain { text := "low();".toList } .done) (.plain { text := " ".toList } .done))

/-- The line `@vertex (v) -> w \x7b`, with a tab in front of the parenthesis. -/
def toneMarker : MarkerLine where
  stage := .vertex
  input := ['v']
  output := ['w']
  indent := []
  gap := ['\t']
  beforeInput := []
  behindInput := []
  beforeArrow := [' ']
  behindArrow := [' ']
  beforeBrace := [' ']
  rest := ['\n']
  isLine := ⟨"@vertex\t(v) -> w \x7b".toList, by decide, by decide⟩

/-- A chunk with a directive, a comment with a line that looks like an entry marker, shared text, a
conditional with an entry marker in it, and a stage block. -/
def tone : Draft :=
  .directive { text := "#include <noise>\n".toList, name := "noise".toList
               isDirective := ⟨⟨"#include <noise>".toList, by decide, by decide⟩, by decide, by decide⟩ }
    (.comment (.block "\n@vertex(i) -> o \x7b\n".toList (by decide))
      (.plain { text := "fn tone() ".toList } (.scope .done
        (.when { gap := [' '], flag := "HDR".toList, pad := [' '] }
          (.plain { text := "\n".toList } (.entry toneMarker (.plain { text := "w.x = v.x;".toList } .done)
            .done))
          (.plain { text := "\n".toList }
            (.block { stage := .fragment, gap := [' '], argument := none } toneCode .done))))))

/-- The flag of the conditional, set to true. -/
def toneFlags : Flags :=
  Table.empty.insert "HDR" (.bool true)

/-- A template with a placeholder on a line of its own. -/
def toneTemplate : Text :=
  "@fragment(i) -> o \x7b\n\x7b\x7bfragment\x7d\x7d\n\x7d".toList

/-- A strict composer with the chunk that is included. -/
def toning : Composer :=
  ⟨⟨[], (Library.addTemplate Table.empty "noise" "fn noise() \x7b\x7d").value⟩, Table.empty, true,
    anonymous⟩

/-- The draft meets every condition of the choice for these flags. -/
theorem isSound_tone : tone.IsSound toneFlags where
  aligned := by simp [tone, toneCode, Draft.Aligned, Include.lineAfter]
  keepsDirectives := by
    simp [tone, toneCode, Draft.KeepsDirectives, Draft.names, Draft.stretches, Draft.slices,
      Cutting.atDirectives]
  keepsBlocks := by simp [tone, Draft.KeepsBlocks, Draft.blocks]
  codes := by
    intro p hp
    obtain rfl := List.mem_singleton.1 hp
    decide
  noStrayElse := by
    simp only [tone, toneCode, Draft.toMarkup, Markup.NoStrayElse]
    decide
  noStrayElse_contributions := by
    intro e he
    rcases List.mem_cons.1 he with rfl | he
    · simp only [tone, Draft.cut, Draft.strip, Draft.toMarkup, Markup.NoStrayElse]
      decide
    · obtain rfl := List.mem_singleton.1 he
      simp [toneCode, Draft.strip, Draft.toMarkup, Markup.NoStrayElse]
  noElse := by
    intro e he
    rcases List.mem_cons.1 he with rfl | he
    · decide
    · obtain rfl := List.mem_singleton.1 he
      decide

/-- The other parts of the program, the template and the included chunk, keep to themselves. -/
theorem hosts_tone : (toning.register "tone" (.ofList tone.text)).Hosts toneFlags ["tone"]
    toneTemplate (.ofTemplate "tone" (.ofList tone.text)) := by
  have hown : ((detectStage (prepared toneFlags ["tone"] toneTemplate)).all fun stage =>
      OwnLines stage (body toneFlags ["tone"] toneTemplate)) = true := by
    decide +kernel
  have hplain : (((toning.register "tone" (.ofList tone.text)).scope.collect true anonymous
      (prepared toneFlags ["tone"] toneTemplate)).value.toOption.all fun cs =>
        isPlainBeside (.ofTemplate "tone" (.ofList tone.text)) (parts
          (detectStage (prepared toneFlags ["tone"] toneTemplate)) cs
          (body toneFlags ["tone"] toneTemplate))) = true := by
    decide +kernel
  refine .of_isPlainBeside (fun stage hstage => ?_) fun cs hcs => ?_
  · simpa using (Option.all_eq_true _ _).1 hown stage hstage
  · exact (Option.all_eq_true _ _).1 hplain cs (congrArg Except.toOption hcs)

/-- The program with the chunk as it is written is the one with the chunk that the flag chooses. -/
theorem compose_choose_tone :
    tone.IsSound toneFlags ∧ tone.HasText tone.text ∧
      (toning.register "tone" (.ofList tone.text)).Hosts toneFlags ["tone"] toneTemplate
        (.ofTemplate "tone" (.ofList tone.text)) ∧
      ((toning.register "tone" (.ofList tone.text)).compose toneFlags ["tone"] toneTemplate
          .empty).value.1.map unspaced =
        ((toning.register "tone" (.ofList (expandConditionals toneFlags tone.text))).compose toneFlags
          ["tone"] toneTemplate .empty).value.1.map unspaced :=
  ⟨isSound_tone, .inl rfl, hosts_tone,
    compose_choose toning toneFlags ["tone"] toneTemplate .empty "tone" isSound_tone (.inl rfl)
      hosts_tone⟩

/-! ### A directive that flags discard -/

/-- A chunk with a directive in the body of a conditional. -/
def veil : Text :=
  "#if OFF \x7b\n#include <fog>\n\x7d\nfn veil() \x7b\x7d".toList

/-- A strict composer with the chunk that the directive includes. -/
def veiling : Composer :=
  ⟨⟨[], (Library.addTemplate Table.empty "fog" "fn fog() \x7b\x7d").value⟩, Table.empty, true, anonymous⟩

/-- **A directive that flags discard is followed all the same** in the chunk as it is written: includes
are collected before the choice. In the chunk that the flags choose it is gone. -/
theorem compose_discarded_directive :
    ((veiling.register "veil" (.ofList veil)).compose Table.empty ["veil"] "x".toList
        .empty).value.1.map unspaced = .ok "fnveil()\x7b\x7dfnfog()\x7b\x7dx".toList ∧
      ((veiling.register "veil" (.ofList (expandConditionals Table.empty veil))).compose Table.empty
        ["veil"] "x".toList .empty).value.1.map unspaced = .ok "fnveil()\x7b\x7dx".toList := by
  decide +kernel

/-! ### What the conditions are for -/

/-- Whether it is the same to a program, but for spaces, if a chunk `veil` is registered as it is written
or as flags choose. -/
def isIndifferent (flags : Flags) (others : List (String × String)) (names : List String)
    (template chunk : String) : Bool :=
  let composer : Composer :=
    ⟨⟨[], others.foldl (fun library p => (library.addTemplate p.1 p.2).value) Table.empty⟩,
      Table.empty, true, anonymous⟩
  let program := fun c : String =>
    ((composer.register "veil" c).compose flags names template.toList .empty).value.1.map unspaced
  program chunk = program (.ofList (expandConditionals flags chunk.toList))

/-- A flag that is on. -/
def onFlags : Flags :=
  Table.empty.insert "ON" (.bool true)

/-- **It is not the same where one of the conditions fails.** -/
theorem not_isIndifferent :
    -- the flags discard a directive
    isIndifferent .empty [("fog", "fn fog() \x7b\x7d")] ["veil"] "x" (.ofList veil) = false ∧
    -- the flags discard a stage block
    isIndifferent .empty [] ["veil"] "\x7b\x7bvertex\x7d\x7d"
      "#if ON \x7b @vertex \x7b\x7b mist(); \x7d\x7d \x7d" = false ∧
    -- the code of a block is blank once the choice is made, and another block takes its place
    isIndifferent .empty [] ["veil"] "\x7b\x7bvertex\x7d\x7d"
      "@vertex \x7b\x7b #if ON \x7b a(); \x7d \x7d\x7d @vertex \x7b\x7b b(); \x7d\x7d" = false ∧
    -- a line becomes a directive by the choice
    isIndifferent onFlags [("fog", "fn fog() \x7b\x7d")] ["veil"] ""
      "#if ON \x7b #include <fog> \x7d" = false ∧
    -- a line becomes an entry marker by the choice
    isIndifferent onFlags [] ["veil"] "" "@vertex(i) -> #if ON \x7b o \x7d \x7b\n\x7d" = false ∧
    -- the word behind a conditional becomes its alternative where a stage block is cut out
    isIndifferent onFlags [] ["veil"] "\x7b\x7bvertex\x7d\x7d"
      "#if ON \x7b a \x7d @vertex \x7b\x7b v \x7d\x7d else \x7b b \x7d" = false ∧
    -- the template goes on with the word
    isIndifferent onFlags [] ["veil"] "else \x7b b \x7d" "#if ON \x7b a \x7d" = false ∧
    -- the placeholder stands in a comment, not on a line of its own
    isIndifferent onFlags [] ["veil"] "// \x7b\x7bvertex\x7d\x7d\n@vertex"
      "@vertex \x7b\x7b #if ON \x7b v(); \x7d \x7d\x7d" = false ∧
    -- the chunk in front leaves a comment open
    isIndifferent onFlags [("open", "/*")] ["open", "veil"] "" "#if ON \x7b a(); \x7d" = false := by
  decide +kernel

end Composer

end ShaderWeave
