import ShaderWeave.Proofs.Include.Frame
import ShaderWeave.Proofs.Include.Listing

set_option autoImplicit false

/-!
# What a composition depends on

A composition looks up the names that its collection visits, and takes from the prepared text the names
that it includes, the stage that it is for, and what is left without its directives. So chunks under
other names do not matter to it; and in a tolerant composition neither does a listed name for which there
is no chunk, since its directive is taken out again.

## Main definitions

* `ShaderWeave.Composer.withLibrary` — a composer with another library.
* `ShaderWeave.Composer.lookedUp` — the names that a composition looks up.

## Main results

* `ShaderWeave.Composer.compose_congr` — libraries in which the same is found for these names.
* `ShaderWeave.Composer.value_compose_of_unresolved` — a listed name without a chunk.
* `ShaderWeave.Composer.compose_frame` — neither unrelated chunks nor unresolved names matter.
-/

namespace ShaderWeave

open Text Scan Include

/-! ### One more listed name -/

namespace Text

/-- A text without `/` has no start of a block comment. -/
theorem occurs_of_notMem {t : Text} (h : '/' ∉ t) : occurs ['/', '*'] t = false := by
  refine Bool.eq_false_iff.2 fun hoccurs => h ?_
  have hin := occurs_iff_infix.1 hoccurs
  exact hin.subset List.mem_cons_self

end Text

namespace Include

/-- The names of the directives of a text, in order. -/
def directiveNames (s : Text) : List String :=
  (directives s).filterMap fun p => p.2.map String.ofList

/-- The directive of a name that can be listed adds the name where it stands. -/
theorem directiveNames_line {u : Text} (hu : StartsLine u) (hopen : openBehind u = false) {name : String}
    (h : IsListable name) (v : Text) :
    directiveNames (u ++ (line name ++ v)) = directiveNames u ++ name :: directiveNames v := by
  rw [directiveNames, directives_append hu hopen, h.isDirective.directives_append,
    List.filterMap_append, List.filterMap_cons]
  simp [directiveNames]

/-- **One more listed name**: the text with its directive is cut there, and without the directive it is read
like the text with the others. -/
theorem exists_cut_at {s : Text} (hs : ClosesComments s) {front : List String}
    (hfront : ∀ n ∈ front, occurs ['/', '*'] n.toList = false) (back : List String) (name : String) :
    ∃ u v, StartsLine u ∧ openBehind u = false ∧
      insertIncludes (front ++ name :: back) s = u ++ (line name ++ v) ∧
      ReadAlike (u ++ v) (insertIncludes (front ++ back) s) := by
  obtain ⟨a, b, hstarts, hopen, halike, hinserted⟩ := exists_cut hs
  refine ⟨a ++ front.flatMap line, back.flatMap line ++ b, startsLine_append_lines hstarts front,
    openBehind_append_lines hstarts hopen hfront, ?_, ?_⟩
  · rw [hinserted _ (by simp)]
    simp [List.flatMap_append]
  · rcases eq_or_ne (front ++ back) [] with hnil | hne
    · obtain ⟨rfl, rfl⟩ := List.append_eq_nil_iff.1 hnil
      simpa [insertIncludes] using halike
    · rw [hinserted _ hne, List.flatMap_append]
      simpa using ReadAlike.refl _

end Include

namespace Composer

/-! ### Other libraries -/

/-- **A composer with another library.** -/
def withLibrary (composer : Composer) (library : Library) : Composer :=
  { composer with scope := { composer.scope with library } }

/-- **The names that a composition looks up.** -/
def lookedUp (composer : Composer) (flags : Flags) (names : List String) (template : Text) :
    List String :=
  composer.scope.lookedUp composer.strict (prepared flags names template)

/-- **A composition is the same with a library in which the same is found** for the names that it looks up:
its outcome, the bindings and the notices. -/
theorem compose_congr {composer : Composer} {flags : Flags} {names : List String} {template : Text}
    {library : Library} (bindings : BindingSet)
    (h : ∀ n ∈ composer.lookedUp flags names template,
      library.find? n = composer.scope.library.find? n) :
    (composer.withLibrary library).compose flags names template bindings =
      composer.compose flags names template bindings := by
  have hcollect : (composer.withLibrary library).scope.collect composer.strict composer.shader
      (prepared flags names template) =
        composer.scope.collect composer.strict composer.shader (prepared flags names template) := by
    refine Scope.collect_congr _ fun n hn => ?_
    rw [Scope.find?, Scope.find?, ← h n hn]
    rfl
  have hbind : ∀ {f g : Text → Noted (Except BuildError Text × BindingSet)},
      f (expandNoting flags template).value = g (expandNoting flags template).value →
        (expandNoting flags template >>= f) = (expandNoting flags template >>= g) :=
    fun hfg => Logged.ext (by rw [Logged.value_bind, Logged.value_bind, hfg])
      (by rw [Logged.notices_bind, Logged.notices_bind, hfg])
  rw [compose, compose]
  refine hbind ?_
  exact congrArg (· >>= _) hcollect

/-! ### Texts that are read alike -/

/-- What is made of collected chunks depends on the stage of the prepared text and on what is left of it
without its directives. -/
theorem composeWith_congr {composer : Composer} {flags : Flags} {names names' : List String}
    {template : Text} (hstage : detectStage (prepared flags names template) =
      detectStage (prepared flags names' template))
    (hstripped : stripIncludes (prepared flags names template) =
      stripIncludes (prepared flags names' template)) (bindings : BindingSet) (chunks : List Chunk) :
    composer.composeWith flags names template bindings chunks =
      composer.composeWith flags names' template bindings chunks := by
  simp only [composeWith, assemble, hstage, hstripped]

/-- **A listed name without a chunk leaves no trace** in a tolerant composition, wherever it is listed.

**Proof sketch.** Its directive is read where it stands, so the names that are included are the others and
this one, and the collected chunks are the same. The directive is taken out again and has no marker. -/
theorem value_compose_of_unresolved {composer : Composer} (htolerant : composer.strict = false)
    {flags : Flags} {template : Text} (htemplate : StartsNoBlock (expandConditionals flags template))
    {front back : List String} (hfront : ∀ n ∈ front, occurs ['/', '*'] n.toList = false)
    {name : String} (hname : IsListable name) (hat : '@' ∉ name.toList) (hbrace : '{' ∉ name.toList)
    (hunresolved : composer.scope.find? name = none) (bindings : BindingSet) :
    (composer.compose flags (front ++ name :: back) template bindings).value =
      (composer.compose flags (front ++ back) template bindings).value := by
  obtain ⟨u, v, hstarts, hopen, hinserted, halike⟩ :=
    exists_cut_at htemplate.closesComments hfront back name
  have hincluded : includeNames (prepared flags (front ++ name :: back) template) =
      distinct (directiveNames u ++ name :: directiveNames v) := by
    rw [prepared, hinserted, ← directiveNames_line hstarts hopen hname]
    rfl
  have hothers : includeNames (prepared flags (front ++ back) template) =
      distinct (directiveNames u ++ directiveNames v) := by
    rw [prepared, ← halike.includes, includeNames, directives_append hstarts hopen,
      List.filterMap_append]
    rfl
  have hstage : detectStage (prepared flags (front ++ name :: back) template) =
      detectStage (prepared flags (front ++ back) template) := by
    rw [detectStage, detectStage, prepared, prepared, hinserted,
      stageMarkers_line hstarts hopen hname.noBlock hat hbrace, halike.markers]
  have hstripped : stripIncludes (prepared flags (front ++ name :: back) template) =
      stripIncludes (prepared flags (front ++ back) template) := by
    rw [prepared, prepared, hinserted, stripIncludes_line hstarts hopen hname, halike.stripped]
  have hcollect := Scope.collect_of_unresolved hunresolved composer.shader hincluded hothers
  rw [value_compose, value_compose, htolerant, hcollect]
  simp only [composeWith_congr hstage hstripped]

/-! ### Unrelated chunks and unresolved names -/

/-- **Neither unrelated chunks nor unresolved names matter.** A chunk whose name a composition does not look
up may be added to the library, replaced there or removed, and the composition is the same. In a
tolerant one a name without a chunk may be listed in any place, and the outcome and the bindings are the
same; for this the name has no space and no character that could start a comment or a marker, and
neither the other listed names nor the directives of the template have the start of a block comment. -/
theorem compose_frame (composer : Composer) (flags : Flags) (names : List String) (template : Text)
    (bindings : BindingSet) :
    (∀ c, c.name ∉ composer.lookedUp flags names template →
      (composer.withLibrary (composer.scope.library.add c).value).compose flags names template bindings =
        composer.compose flags names template bindings) ∧
      (∀ name, name ∉ composer.lookedUp flags names template →
        (composer.withLibrary (composer.scope.library.erase name)).compose flags names template bindings =
          composer.compose flags names template bindings) ∧
      (composer.strict = false → StartsNoBlock (expandConditionals flags template) →
        (∀ n ∈ names, occurs ['/', '*'] n.toList = false) →
        ∀ front back name, names = front ++ back → isPlain name.toList = true → '/' ∉ name.toList →
          '@' ∉ name.toList → '{' ∉ name.toList → composer.scope.find? name = none →
          (composer.compose flags (front ++ name :: back) template bindings).value =
            (composer.compose flags names template bindings).value) := by
  refine ⟨fun c hc => compose_congr bindings fun n hn => ?_,
    fun name hname => compose_congr bindings fun n hn => ?_, ?_⟩
  · rw [Library.value_add, Library.find?, Table.get?_insert, if_neg (ne_of_mem_of_not_mem hn hc).symm,
      Library.find?]
  · rw [Library.find?, Table.get?_erase, if_neg (ne_of_mem_of_not_mem hn hname).symm, Library.find?]
  · rintro htolerant htemplate hnames front back name rfl hplain hslash hat hbrace hunresolved
    exact value_compose_of_unresolved htolerant htemplate
      (fun n hn => hnames n (List.mem_append_left _ hn)) ⟨hplain, occurs_of_notMem hslash⟩ hat hbrace
      hunresolved bindings

/-- A tolerant composer with a chunk that includes one of the library, which has another one besides. -/
def harbor : Composer :=
  ⟨⟨[.ofTemplate "pier" "#include <rope>\n@fragment \x7b\x7b moor(); \x7d\x7d"],
    (Table.empty.insert "rope" (.ofTemplate "rope" "fn moor() \x7b\x7d")).insert "gull"
      (.ofTemplate "gull" "fn cry() \x7b\x7d")⟩, Table.empty, false, anonymous⟩

/-- The unrelated chunk may be another one, or missing, and a name without a chunk may be listed. -/
theorem compose_frame_harbor :
    let template := "#include <pier>\n\x7b\x7bfragment\x7d\x7d".toList
    let program := harbor.compose Table.empty ["rope"] template .empty
    (harbor.withLibrary (harbor.scope.library.add (.ofTemplate "gull" "fn soar() \x7b\x7d")).value).compose
        Table.empty ["rope"] template .empty = program ∧
      (harbor.withLibrary (harbor.scope.library.erase "gull")).compose Table.empty ["rope"] template
        .empty = program ∧
      (harbor.compose Table.empty ["fog", "rope"] template .empty).value = program.value ∧
      program.value.1 = .ok "fn moor() \x7b\x7d\n\nmoor();".toList := by
  intro template program
  have hgull : "gull" ∉ harbor.lookedUp Table.empty ["rope"] template := by decide +kernel
  obtain ⟨hadd, herase, hlist⟩ := compose_frame harbor Table.empty ["rope"] template .empty
  refine ⟨hadd (.ofTemplate "gull" "fn soar() \x7b\x7d") hgull, herase "gull" hgull, ?_, by decide +kernel⟩
  exact hlist rfl (by decide +kernel) (by decide) [] ["rope"] "fog" rfl (by decide) (by decide) (by decide)
    (by decide) (by decide +kernel)

end Composer

end ShaderWeave
