import ShaderWeave.Composition
import ShaderWeave.Proofs.Include.Closure

set_option autoImplicit false

/-!
# Strict and tolerant composition

A strict composition visits chunks in the order in which a tolerant one does, and stops at the first
name that it does not accept: one without a chunk, or with a chunk that has a defect. If it accepts all
of them, the two compositions cannot be told apart. If not, no binding is added.

## Main definitions

* `ShaderWeave.Scope.Accepts` — a strict composition accepts a name.
* `ShaderWeave.Scope.Rejects` — the error for a name that a strict composition does not accept.
* `ShaderWeave.Scope.gatherFrom` — a strict collection as a walk along the queue that ends at the
  first error.

## Main results

* `ShaderWeave.Scope.collect_strict_eq` — a strict collection is that walk.
* `ShaderWeave.Scope.gatherFrom_eq_error_iff`, `ShaderWeave.Scope.gatherFrom_eq_ok` — how the walk
  ends, by the names that a tolerant collection visits.
* `ShaderWeave.Composer.compose_strict_tolerant` — a strict composition is a tolerant one that may be
  rejected.
-/

namespace ShaderWeave

namespace Scope

/-! ### Acceptance of one name -/

/-- **A strict composition accepts a name** if it has a chunk, and the chunk no defect. -/
def Accepts (scope : Scope) (name : String) : Prop :=
  ∃ c, scope.find? name = some c ∧ c.defects = []

/-- **The error for a name that a strict composition does not accept**: that there is no chunk, or
else the first defect of the chunk. -/
inductive Rejects (scope : Scope) (shader name : String) : BuildError → Prop where
  | unresolved (h : scope.find? name = none) :
      Rejects scope shader name (.unresolvedChunk shader name)
  | malformed {c : Chunk} {d : ChunkDefect} {ds : List ChunkDefect}
      (hc : scope.find? name = some c) (hd : c.defects = d :: ds) :
      Rejects scope shader name (.malformedChunk c.name d)

/-- The chunk of a name that is accepted, or the error. -/
def accept (scope : Scope) (shader name : String) : Except BuildError Chunk :=
  match scope.find? name with
  | none => .error (.unresolvedChunk shader name)
  | some c =>
    match c.defects with
    | [] => .ok c
    | d :: _ => .error (.malformedChunk c.name d)

/-- A chunk is accepted if and only if it is found and has no defect. -/
theorem accept_eq_ok_iff {scope : Scope} {shader name : String} {c : Chunk} :
    scope.accept shader name = .ok c ↔ scope.find? name = some c ∧ c.defects = [] := by
  unfold accept
  split
  · rename_i h
    simp [h]
  · rename_i c' h
    split <;> grind

/-- The error is one for which the name is rejected. -/
theorem accept_eq_error_iff {scope : Scope} {shader name : String} {e : BuildError} :
    scope.accept shader name = .error e ↔ scope.Rejects shader name e := by
  constructor
  · intro h
    unfold accept at h
    split at h
    · rename_i hc
      cases h
      exact .unresolved hc
    · rename_i c hc
      split at h
      · cases h
      · rename_i d ds hd
        cases h
        exact .malformed hc hd
  · rintro (hc | ⟨hc, hd⟩)
    · simp [accept, hc]
    · simp [accept, hc, hd]

/-- A name is accepted or there is an error for it. -/
theorem exists_rejects_iff {scope : Scope} {shader name : String} :
    (∃ e, scope.Rejects shader name e) ↔ ¬scope.Accepts name := by
  cases h : scope.accept shader name with
  | ok c =>
    have haccepts : scope.Accepts name := ⟨c, accept_eq_ok_iff.1 h⟩
    have hnone : ¬∃ e, scope.Rejects shader name e := by
      rintro ⟨e, he⟩
      rw [accept_eq_error_iff.2 he] at h
      cases h
    exact iff_of_false hnone (not_not_intro haccepts)
  | error e =>
    refine iff_of_true ⟨e, accept_eq_error_iff.1 h⟩ ?_
    rintro ⟨c, hc⟩
    rw [accept_eq_ok_iff.2 hc] at h
    cases h

/-! ### The walk of a strict collection -/

/-- **A strict collection as a walk along the queue** of names, when the names in `seen` have come up
already. At the first name that is not accepted it ends; what is behind is not looked at. -/
def gatherFrom (scope : Scope) (shader : String) (seen : List String) :
    (queue : List String) → Except BuildError (List Chunk)
  | [] => .ok []
  | name :: queue =>
    match scope.accept shader name with
    | .error e => .error e
    | .ok c =>
      (gatherFrom scope shader (seen ++ scope.newNames seen name)
        (queue ++ scope.newNames seen name)).map (c :: ·)
termination_by queue => (scope.unseen seen).length + queue.length
decreasing_by
  have := scope.unseen_add_length_le seen name
  simp only [List.length_append, List.length_cons]
  omega

/-- Behind the first name in a queue, the names it adds are visited last. -/
theorem visitedFrom_cons (scope : Scope) (seen : List String) (name : String)
    (queue : List String) :
    scope.visitedFrom seen (name :: queue) =
      name :: scope.visitedFrom (seen ++ scope.newNames seen name)
        (queue ++ scope.newNames seen name) := by
  rw [visitedFrom, visitsFrom, List.map_cons, visitedFrom]

/-- The error of a visit is that of its name. -/
theorem error?_eq_some_iff {scope : Scope} {shader name : String} {e : BuildError} :
    error? shader (name, scope.find? name) = some e ↔ scope.accept shader name = .error e := by
  unfold accept
  cases scope.find? name with
  | none => simp [error?]
  | some c => cases h : c.defects <;> simp [error?, h]

/-- There is no error for the visit of a name if and only if its chunk is accepted. -/
theorem error?_eq_none_iff {scope : Scope} {shader name : String} :
    error? shader (name, scope.find? name) = none ↔ ∃ c, scope.accept shader name = .ok c := by
  rw [Option.eq_none_iff_forall_ne_some]
  cases h : scope.accept shader name <;> simp [error?_eq_some_iff, h]

/-- What the walk gives, by the visits that a tolerant collection makes.

**Proof sketch.** Induction on the visits. The walk ends at the first one if there is an error for it;
otherwise it goes on with the queue that the visits go on with. -/
theorem gatherFrom_eq (scope : Scope) (shader : String) (seen queue : List String) :
    scope.gatherFrom shader seen queue =
      match (scope.visitsFrom seen queue).findSome? (error? shader) with
      | some e => .error e
      | none => .ok ((scope.visitsFrom seen queue).filterMap Prod.snd) := by
  fun_induction visitsFrom scope seen queue with
  | case1 => simp [gatherFrom]
  | case2 seen name queue ih =>
    rw [gatherFrom, List.findSome?_cons]
    cases haccept : scope.accept shader name with
    | error e => rw [error?_eq_some_iff.2 haccept]
    | ok c =>
      have hfind := (accept_eq_ok_iff.1 haccept).1
      rw [error?_eq_none_iff.2 ⟨c, haccept⟩, ih, List.filterMap_cons, hfind]
      simp only
      split <;> rfl

/-- **A strict collection is the walk** from the names of the text. -/
theorem collect_strict_eq (scope : Scope) (shader : String) (s : Text) :
    (scope.collect true shader s).value =
      scope.gatherFrom shader (includeNames s) (includeNames s) := by
  rw [gatherFrom_eq, collect, visits]
  simp only [↓reduceIte]
  cases (scope.visitsFrom (includeNames s) (includeNames s)).findSome? (error? shader) <;> rfl

/-- A tolerant collection gives the chunks of all visited names. -/
theorem value_collect_tolerant (scope : Scope) (shader : String) (s : Text) :
    (scope.collect false shader s).value = .ok ((scope.visited s).filterMap scope.find?) := by
  simp [collect, visits, visitsFrom_eq_map, visited, List.filterMap_map]

/-- **The walk ends in an error** exactly if there is one for some visited name, and none for the names
visited before it. -/
theorem gatherFrom_eq_error_iff {scope : Scope} {shader : String} {seen queue : List String}
    {e : BuildError} :
    scope.gatherFrom shader seen queue = .error e ↔
      ∃ front n back, scope.visitedFrom seen queue = front ++ n :: back ∧
        (∀ m ∈ front, scope.Accepts m) ∧ scope.Rejects shader n e := by
  fun_induction gatherFrom scope shader seen queue with
  | case1 => simp [visitedFrom, visitsFrom]
  -- the first name in the queue is rejected
  | case2 seen name queue e' haccept =>
    rw [visitedFrom_cons]
    constructor
    · intro h
      cases h
      exact ⟨[], name, _, rfl, by simp, accept_eq_error_iff.1 haccept⟩
    · rintro ⟨_ | ⟨m, front⟩, n, back, heq, hfront, hn⟩
      · obtain ⟨rfl, -⟩ := List.cons.inj heq
        rw [accept_eq_error_iff.2 hn] at haccept
        cases haccept
        rfl
      · -- the first name is not accepted, so it cannot stand before the rejected one
        obtain ⟨rfl, -⟩ := List.cons.inj heq
        exact absurd (hfront name List.mem_cons_self)
          (exists_rejects_iff.1 ⟨e', accept_eq_error_iff.1 haccept⟩)
  -- the first name in the queue is accepted, and the walk goes on
  | case3 seen name queue c haccept ih =>
    have hname : scope.Accepts name := ⟨c, accept_eq_ok_iff.1 haccept⟩
    have hmap : ∀ r : Except BuildError (List Chunk),
        r.map (c :: ·) = .error e ↔ r = .error e := by
      intro r
      cases r <;> simp [Except.map]
    rw [visitedFrom_cons, hmap, ih]
    constructor
    · rintro ⟨front, n, back, heq, hfront, hn⟩
      refine ⟨name :: front, n, back, by rw [heq]; rfl, ?_, hn⟩
      intro m hm
      rcases List.mem_cons.1 hm with rfl | hm
      · exact hname
      · exact hfront m hm
    · rintro ⟨_ | ⟨m, front⟩, n, back, heq, hfront, hn⟩
      · obtain ⟨rfl, -⟩ := List.cons.inj heq
        exact absurd hname (exists_rejects_iff.1 ⟨e, hn⟩)
      · have htail := (List.cons.inj heq).2
        exact ⟨front, n, back, htail, fun m hm => hfront m (List.mem_cons_of_mem _ hm), hn⟩

/-- **If the walk does not end in an error** then all visited names are accepted, and it gives their
chunks. -/
theorem gatherFrom_eq_ok {scope : Scope} {shader : String} {seen queue : List String}
    {cs : List Chunk} (h : scope.gatherFrom shader seen queue = .ok cs) :
    (∀ n ∈ scope.visitedFrom seen queue, scope.Accepts n) ∧
      cs = (scope.visitedFrom seen queue).filterMap scope.find? := by
  fun_induction gatherFrom scope shader seen queue generalizing cs with
  | case1 =>
    cases h
    simp [visitedFrom, visitsFrom]
  | case2 => cases h
  | case3 seen name queue c haccept ih =>
    obtain ⟨hfind, hdefects⟩ := accept_eq_ok_iff.1 haccept
    cases hrest : scope.gatherFrom shader (seen ++ scope.newNames seen name)
        (queue ++ scope.newNames seen name) with
    | error e =>
      rw [hrest] at h
      cases h
    | ok rest =>
      rw [hrest] at h
      cases h
      obtain ⟨haccepts, hchunks⟩ := ih hrest
      rw [visitedFrom_cons, List.filterMap_cons, hfind, ← hchunks]
      refine ⟨?_, rfl⟩
      intro n hn
      rcases List.mem_cons.1 hn with rfl | hn
      · exact ⟨c, hfind, hdefects⟩
      · exact haccepts n hn

end Scope

namespace Composer

/-- The text of a template whose includes are collected: its conditionals are expanded, and the named
chunks are included as well. -/
def prepared (flags : Flags) (names : List String) (template : Text) : Text :=
  insertIncludes names (expandConditionals flags template)

/-- The program made with given chunks, and the bindings with its own ones. -/
def composeWith (composer : Composer) (flags : Flags) (names : List String) (template : Text)
    (bindings : BindingSet) (chunks : List Chunk) : Text × BindingSet :=
  let s := prepared flags names template
  let program := (composer.finish flags (composer.assemble (detectStage s) chunks s).value).value
  (program, (extractBindings (detectStage s) program bindings).value)

/-- A composition fails as its collection does, and then adds no binding; otherwise it goes on with
the chunks. -/
theorem value_compose (composer : Composer) (flags : Flags) (names : List String)
    (template : Text) (bindings : BindingSet) :
    (composer.compose flags names template bindings).value =
      match (composer.scope.collect composer.strict composer.shader
          (prepared flags names template)).value with
      | .error e => (.error e, bindings)
      | .ok chunks =>
        ((.ok (composer.composeWith flags names template bindings chunks).1),
          (composer.composeWith flags names template bindings chunks).2) := by
  simp only [compose, Logged.value_bind, prepared, expandNoting]
  split <;> simp_all [composeWith, prepared]

/-- **A strict composition is a tolerant one that may be rejected.** The tolerant one never fails. The
strict one fails exactly if some name that is visited has no chunk or a chunk with a defect; the error
is that of the first such name in the order of discovery, and then no binding is added. Otherwise the
two give the same program and the same bindings.

**Proof sketch.** The visited names are the list that a tolerant collection discovers. The strict
collection walks along the same list, so its error is that of the first name it does not accept; if
it accepts all, it has collected the same chunks, on which both compositions go on alike. -/
theorem compose_strict_tolerant (composer : Composer) (flags : Flags) (names : List String)
    (template : Text) (bindings : BindingSet) :
    let tolerant := ({ composer with strict := false }.compose flags names template bindings).value
    let strict := ({ composer with strict := true }.compose flags names template bindings).value
    ∃ visited, composer.scope.IsDiscovery (prepared flags names template) visited ∧
      (∃ program, tolerant.1 = .ok program) ∧
      ((∃ e, strict.1 = .error e) ↔ ∃ n ∈ visited, ¬composer.scope.Accepts n) ∧
      (∀ e, strict.1 = .error e ↔
        ∃ front n back, visited = front ++ n :: back ∧ (∀ m ∈ front, composer.scope.Accepts m) ∧
          composer.scope.Rejects composer.shader n e) ∧
      (∀ e, strict.1 = .error e → strict.2 = bindings) ∧
      ∀ program, strict.1 = .ok program → strict = tolerant := by
  intro tolerant strict
  -- both compositions go on from the same visits, by what the walk gives
  let s := prepared flags names template
  let walk := composer.scope.gatherFrom composer.shader (includeNames s) (includeNames s)
  have hstrict : strict =
      match walk with
      | .error e => (.error e, bindings)
      | .ok chunks =>
        ((.ok (composer.composeWith flags names template bindings chunks).1),
          (composer.composeWith flags names template bindings chunks).2) := by
    simp only [strict, value_compose, Scope.collect_strict_eq]
    rfl
  have htolerant : tolerant =
      ((.ok (composer.composeWith flags names template bindings
          ((composer.scope.visited s).filterMap composer.scope.find?)).1),
        (composer.composeWith flags names template bindings
          ((composer.scope.visited s).filterMap composer.scope.find?)).2) := by
    simp only [tolerant, value_compose, Scope.value_collect_tolerant]
    rfl
  have herror : ∀ e, strict.1 = .error e ↔ walk = .error e := by
    intro e
    rw [hstrict]
    cases walk <;> simp
  refine ⟨composer.scope.visited s, composer.scope.isDiscovery_visited s, ?_, ?_, ?_, ?_, ?_⟩
  · exact ⟨_, congrArg Prod.fst htolerant⟩
  · constructor
    · rintro ⟨e, he⟩
      obtain ⟨front, n, back, hvisited, -, hn⟩ := Scope.gatherFrom_eq_error_iff.1 ((herror e).1 he)
      refine ⟨n, ?_, Scope.exists_rejects_iff.1 ⟨e, hn⟩⟩
      rw [Scope.visited, hvisited]
      simp
    · rintro ⟨n, hn, hrejected⟩
      cases hwalk : walk with
      | error e => exact ⟨e, (herror e).2 hwalk⟩
      | ok chunks => exact absurd ((Scope.gatherFrom_eq_ok hwalk).1 n hn) hrejected
  · intro e
    rw [herror]
    exact Scope.gatherFrom_eq_error_iff
  · intro e he
    rw [hstrict, (herror e).1 he]
  · intro program hprogram
    cases hwalk : walk with
    | error e =>
      rw [(herror e).2 hwalk] at hprogram
      cases hprogram
    | ok chunks =>
      rw [hstrict, hwalk, htolerant, (Scope.gatherFrom_eq_ok hwalk).2]
      rfl

end Composer

end ShaderWeave
