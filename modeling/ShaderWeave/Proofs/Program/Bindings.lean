import ShaderWeave.Program
import ShaderWeave.Proofs.Binding.Reading
import ShaderWeave.Proofs.Include.Strictness
import ShaderWeave.Proofs.Text.Formatting

set_option autoImplicit false

/-!
# The bindings of a built program

The bindings of a build are collected from the composed programs, but what is handed out are the
formatted ones. The formatted programs declare the same bindings: reading them again gives the set that
the build returned, up to runs of spaces.

## Main definitions

* `ShaderWeave.Builder.composed` — the composed program of a stage.
* `ShaderWeave.Builder.finished` — a composed program as it is handed out.
* `ShaderWeave.Program.declaredBindings` — the bindings that a built program declares.

## Main results

* `ShaderWeave.extractBindings_congr` — programs with the same declarations have the same bindings.
* `ShaderWeave.Builder.build_eq_ok` — what a build that succeeds returns.
* `ShaderWeave.Builder.build_bindings_declared` — the bindings of a build are those that its programs
  declare.
-/

namespace ShaderWeave

open Text Scan

/-! ### Sets of bindings up to runs of spaces -/

namespace BindingSet

/-- A set of bindings with the runs of spaces in them collapsed. -/
def collapsed (set : BindingSet) : BindingSet :=
  { set with entries := set.entries.map Binding.collapsed }

/-- Runs of spaces do not count for the place of a declaration. -/
theorem collapsed_insert (set : BindingSet) (b : Binding) :
    (set.insert b).2.collapsed = (set.collapsed.insert b.collapsed).2 := by
  have hslot : b.collapsed.slot = b.slot := rfl
  unfold insert collapsed
  simp only [hslot]
  cases set.index.lookup b.slot with
  | none => simp
  | some i =>
    refine congrArg (BindingSet.mk · set.index) (List.ext_getElem? fun j => ?_)
    simp only [List.getElem?_map, List.getElem?_modify]
    cases set.entries[j]? with
    | none => rfl
    | some e =>
      by_cases hij : i = j
      · simp only [hij, if_true, Option.map_some, Option.map_eq_map]
        rfl
      · simp [hij]

/-- Declarations with collapsed runs of spaces give the set with collapsed runs of spaces. -/
theorem collapsed_insertAll (bs : List Binding) (set : BindingSet) :
    (set.insertAll bs).collapsed = set.collapsed.insertAll (bs.map Binding.collapsed) := by
  induction bs generalizing set with
  | nil => rfl
  | cons b bs ih =>
    rw [insertAll, List.foldl_cons, ← insertAll, ih, collapsed_insert]
    rfl

end BindingSet

/-- **Programs with the same declarations have the same bindings**, behind the same ones. -/
theorem extractBindings_congr {stage : Option Stage} {s t : Text} {set set' : BindingSet}
    (hset : set.collapsed = set'.collapsed)
    (h : ∀ stages, (declarations stages s).map Binding.collapsed =
      (declarations stages t).map Binding.collapsed) :
    (extractBindings stage s set).value.collapsed = (extractBindings stage t set').value.collapsed := by
  rw [value_extractBindings, value_extractBindings, BindingSet.collapsed_insertAll,
    BindingSet.collapsed_insertAll, hset, h]

/-- The bindings that a built program declares, in its vertex and then in its fragment stage. -/
def Program.declaredBindings (p : Program) : BindingSet :=
  (extractBindings (some .fragment) p.fragment
    (extractBindings (some .vertex) p.vertex .empty).value).value

/-! ### Building -/

namespace Builder

/-- **The composed program of a stage**, or the error. -/
def composed (b : Builder) (config : Config) (stage : Stage) : Except BuildError Text :=
  ((b.composer config).compose config.flags config.chunkNames (stageTemplate config stage)
    .empty).value.1

/-- **A composed program as it is handed out**: formatted, unless the settings say otherwise. -/
def finished (b : Builder) (s : Text) : Text :=
  if b.settings.formatOutput then format b.settings.indentWidth s else s

/-- The text of a stage whose markers say which stage it is for. -/
def prepared (config : Config) (stage : Stage) : Text :=
  Composer.prepared config.flags config.chunkNames (stageTemplate config stage)

/-- A stage is composed alike for all bindings; those of its program are added. -/
theorem value_compose_of_composed {b : Builder} {config : Config} {stage : Stage}
    (bindings : BindingSet) :
    ((b.composer config).compose config.flags config.chunkNames (stageTemplate config stage)
        bindings).value =
      match b.composed config stage with
      | .error e => (.error e, bindings)
      | .ok s => (.ok s, (extractBindings (detectStage (prepared config stage)) s bindings).value) := by
  rw [composed, Composer.value_compose, Composer.value_compose]
  split <;> rfl

/-- What a stage that is built returns. -/
theorem buildStage_eq_ok {b : Builder} {config : Config} {stage : Stage} {bindings set : BindingSet}
    {t : Text} (h : (b.buildStage config stage bindings).value = (.ok t, set)) :
    ∃ s, b.composed config stage = .ok s ∧ t = b.finished s ∧
      set = (extractBindings (detectStage (prepared config stage)) s bindings).value := by
  rw [buildStage, Logged.value_bind, value_compose_of_composed] at h
  cases hs : b.composed config stage with
  | error e =>
    rw [hs] at h
    cases h
  | ok s =>
    rw [hs] at h
    dsimp only at h
    -- the log entry of a finished program does not count
    change Logged.value (ite _ _ _) = _ at h
    rw [apply_ite Logged.value, Logged.value_bind, ite_self, ← finished] at h
    split at h
    · cases h
    · cases h
      exact ⟨s, rfl, rfl, rfl⟩

/-- **What a build that succeeds returns.** -/
theorem build_eq_ok {b : Builder} {config : Config} {p : Program}
    (h : (b.build config).value = .ok p) :
    ∃ v f, b.composed config .vertex = .ok v ∧ b.composed config .fragment = .ok f ∧
      p.vertex = b.finished v ∧ p.fragment = b.finished f ∧
      p.bindings = (extractBindings (detectStage (prepared config .fragment)) f
        (extractBindings (detectStage (prepared config .vertex)) v .empty).value).value := by
  unfold build at h
  simp only [Logged.value_bind] at h
  split at h
  · cases h
  · rename_i t hvertex
    simp only [Logged.value_bind] at h
    split at h
    · cases h
    · rename_i t' hfragment
      cases h
      obtain ⟨v, hv, rfl, hset⟩ := buildStage_eq_ok (Prod.ext hvertex rfl)
      obtain ⟨f, hf, rfl, hset'⟩ := buildStage_eq_ok (Prod.ext hfragment rfl)
      refine ⟨v, f, hv, hf, rfl, rfl, ?_⟩
      rw [← hset]
      exact hset'

/-- A composed program and what is handed out of it have the same declarations. -/
theorem declarations_finished (b : Builder) (stages : StageSet) {s : Text}
    (h : isBlankSpaced s = true) :
    (declarations stages (b.finished s)).map Binding.collapsed =
      (declarations stages s).map Binding.collapsed := by
  unfold finished
  split
  · exact (declarations_reflow (format_reflow _ h)).symm
  · rfl

/-- **The bindings of a build are those that its programs declare**, in the same slots and order, with
the same names and stages, and with the same kinds, access modes and types up to runs of spaces. This
takes that each stage is recognized as such, and that there are no spaces but blanks. Formatting does
not change the declarations of any program of that kind.

**Proof sketch.** A formatted text is a reflow of the text, since it differs only in the blanks around
newlines. Every reader of a declaration reads the same from both, and comments end at the same place.
So the declarations are the same, and a set of bindings only depends on these. -/
theorem build_bindings_declared (b : Builder) (config : Config) {p : Program}
    (hbuild : (b.build config).value = .ok p)
    (hstages : ∀ stage ∈ [Stage.vertex, .fragment],
      detectStage (prepared config stage) = some stage)
    (hspaces : ∀ stage ∈ [Stage.vertex, .fragment], ∀ s, b.composed config stage = .ok s →
      isBlankSpaced s = true) :
    p.declaredBindings.entries.map Binding.collapsed =
        p.bindings.entries.map Binding.collapsed ∧
      ∀ (width : Nat) (stages : StageSet) (s : Text), isBlankSpaced s = true →
        (declarations stages (format width s)).map Binding.collapsed =
          (declarations stages s).map Binding.collapsed := by
  obtain ⟨v, f, hv, hf, hvertex, hfragment, hbindings⟩ := build_eq_ok hbuild
  have hvSpaced : isBlankSpaced v = true := hspaces .vertex (by simp) v hv
  have hfSpaced : isBlankSpaced f = true := hspaces .fragment (by simp) f hf
  refine ⟨?_, fun width stages s h => (declarations_reflow (format_reflow width h)).symm⟩
  rw [Program.declaredBindings, hbindings, hvertex, hfragment, hstages .vertex (by simp),
    hstages .fragment (by simp)]
  refine congrArg BindingSet.entries (extractBindings_congr ?_ fun stages =>
    b.declarations_finished stages hfSpaced)
  exact extractBindings_congr rfl fun stages => b.declarations_finished stages hvSpaced

/-- A builder without chunks and structs. -/
def plain : Builder :=
  ⟨Table.empty, Table.empty, Settings.default⟩

/-- A configuration with a declaration that spans lines, and a slot that both stages declare. -/
def lit : Config :=
  ⟨"lit", [], [], [], [], Table.empty,
    some "@vertex\n@group(0) @binding(0) var<storage,\n\n read> a: B<\n C>;",
    some "@fragment\n@group(0) @binding(0) var<uniform> b: B;"⟩

/-- Its formatted programs declare the bindings, with other spaces in one of the types. -/
theorem build_bindings_declared_lit :
    ∃ p, (plain.build lit).value = .ok p ∧
      (∀ stage ∈ [Stage.vertex, .fragment], detectStage (prepared lit stage) = some stage) ∧
      (∀ stage ∈ [Stage.vertex, .fragment], ∀ s, plain.composed lit stage = .ok s →
        isBlankSpaced s = true) ∧
      p.bindings.entries.map Binding.name = ["a"] ∧
      p.declaredBindings.entries.map Binding.collapsed =
        p.bindings.entries.map Binding.collapsed := by
  have hstages : ∀ stage ∈ [Stage.vertex, .fragment],
      detectStage (prepared lit stage) = some stage := by
    decide +kernel
  have hcomposed : ∀ stage ∈ [Stage.vertex, .fragment], (match plain.composed lit stage with
      | .ok s => isBlankSpaced s
      | .error _ => true) = true := by
    decide +kernel
  have hspaces : ∀ stage ∈ [Stage.vertex, .fragment], ∀ s, plain.composed lit stage = .ok s →
      isBlankSpaced s = true := by
    intro stage hstage s hs
    have := hcomposed stage hstage
    rw [hs] at this
    exact this
  have hbuilt : (match (plain.build lit).value with
      | .ok p => p.bindings.entries.map Binding.name
      | .error _ => []) = ["a"] := by
    decide +kernel
  cases hp : (plain.build lit).value with
  | error e =>
    rw [hp] at hbuilt
    cases hbuilt
  | ok p =>
    rw [hp] at hbuilt
    exact ⟨p, rfl, hstages, hspaces, hbuilt,
      (build_bindings_declared plain lit hp hstages hspaces).1⟩

end Builder

end ShaderWeave
