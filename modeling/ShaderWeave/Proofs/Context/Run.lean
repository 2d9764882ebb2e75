import Mathlib.Data.List.Basic
import ShaderWeave.Shader

set_option autoImplicit false

/-!
# Runs of a context

What can be done with a context and with the shaders created through it, one operation after the
other. Every operation that needs the programs of a configuration gets them in one way, so all that
is proved about the cache goes by the configuration that an operation requests.

## Main definitions

* `ShaderWeave.Scene` — a context with the shaders that were created through it.
* `ShaderWeave.Operation` — an operation on a scene.
* `ShaderWeave.Scene.step`, `ShaderWeave.Scene.run` — one operation, and one after the other.
* `ShaderWeave.Scene.request?`, `ShaderWeave.Scene.requests` — the configurations that are requested.

## Main results

* `ShaderWeave.Builder.name_of_build` — programs carry the name and the digest of a configuration.
* `ShaderWeave.Context.getOrBuild_cases` — the three ways in which a request ends.
* `ShaderWeave.Context.cached?_of_getOrBuild` — what a request returns is in the cache afterwards.
* `ShaderWeave.Scene.context_step_of_request` — a request acts on the context as a build does.
* `ShaderWeave.Scene.cache_step_of_no_request` — all else keeps the cache, unless it clears it.
-/

namespace ShaderWeave

/-! ### Building -/

/-- **Programs carry the name and the digest** of their configuration. -/
theorem Builder.name_of_build {b : Builder} {config : Config} {p : Program}
    (h : (b.build config).value = .ok p) : p.name = config.name ∧ p.digest = config.digest := by
  unfold Builder.build at h
  simp only [Logged.value_bind] at h
  split at h
  · cases h
  · simp only [Logged.value_bind] at h
    split at h
    · cases h
    · cases h
      exact ⟨rfl, rfl⟩

namespace Context

variable {ctx : Context} {config : Config}

/-- A program in the cache is returned as it is. -/
theorem getOrBuild_of_cached {c : Cached} (h : ctx.cached? config.digest = some c) :
    (ctx.getOrBuild config).value = (.ok c, ctx) := by
  simp [getOrBuild, h]

/-- A program that is not in the cache is built, and gets a new number. -/
theorem getOrBuild_of_ok {p : Program} (h : ctx.cached? config.digest = none)
    (hp : (ctx.builder.build config).value = .ok p) :
    (ctx.getOrBuild config).value =
      (.ok ⟨ctx.built, p⟩,
        { ctx with cache := ctx.cache ++ [⟨ctx.built, p⟩], built := ctx.built + 1 }) := by
  simp [getOrBuild, h, hp]

/-- A build that fails leaves the context as it was. -/
theorem getOrBuild_of_error {e : BuildError} (h : ctx.cached? config.digest = none)
    (he : (ctx.builder.build config).value = .error e) :
    (ctx.getOrBuild config).value = (.error e, ctx) := by
  simp [getOrBuild, h, he]

/-- What look-up in the cache finds is in the cache, and has the digest. -/
theorem mem_of_cached? {d : Digest} {c : Cached} (h : ctx.cached? d = some c) :
    c ∈ ctx.cache ∧ c.program.digest = d := by
  refine ⟨List.mem_of_find?_eq_some h, ?_⟩
  simpa using List.find?_some h

/-- **A request ends in one of three ways**: the programs are in the cache, or they are built and put
there, or they cannot be built and nothing changes. -/
theorem getOrBuild_cases (ctx : Context) (config : Config) :
    (∃ r, ctx.cached? config.digest = some r ∧ (ctx.getOrBuild config).value = (.ok r, ctx)) ∨
    (∃ p, ctx.cached? config.digest = none ∧ (ctx.builder.build config).value = .ok p ∧
      (ctx.getOrBuild config).value =
        (.ok ⟨ctx.built, p⟩,
          { ctx with cache := ctx.cache ++ [⟨ctx.built, p⟩], built := ctx.built + 1 })) ∨
    (∃ e, ctx.cached? config.digest = none ∧ (ctx.builder.build config).value = .error e ∧
      (ctx.getOrBuild config).value = (.error e, ctx)) := by
  cases hc : ctx.cached? config.digest with
  | some r => exact .inl ⟨r, rfl, getOrBuild_of_cached hc⟩
  | none =>
    cases hb : (ctx.builder.build config).value with
    | ok p => exact .inr (.inl ⟨p, rfl, rfl, getOrBuild_of_ok hc hb⟩)
    | error e => exact .inr (.inr ⟨e, rfl, rfl, getOrBuild_of_error hc hb⟩)

/-- Programs at the end of the cache are found if no others with the digest are in it. -/
theorem cached?_append (ctx : Context) (r : Cached) (n : ℕ) (d : Digest) :
    { ctx with cache := ctx.cache ++ [r], built := n }.cached? d =
      (ctx.cached? d).or (if r.program.digest = d then some r else none) := by
  simp only [cached?, List.find?_append, List.find?_cons, List.find?_nil]
  split <;> simp_all

/-- What a request returns is in the cache afterwards. -/
theorem cached?_of_getOrBuild {r : Cached}
    (h : (ctx.getOrBuild config).value.1 = .ok r) :
    (ctx.getOrBuild config).value.2.cached? config.digest = some r := by
  rcases ctx.getOrBuild_cases config with
    ⟨r', hcached, hvalue⟩ | ⟨p, hcached, hbuild, hvalue⟩ | ⟨e, _, _, hvalue⟩
  · rw [hvalue] at h ⊢
    cases h
    exact hcached
  · rw [hvalue] at h ⊢
    cases h
    rw [Context.cached?_append, hcached, Option.none_or, if_pos (Builder.name_of_build hbuild).2]
  · rw [hvalue] at h
    cases h

end Context

/-! ### Scenes -/

/-- **A scene**: a context with the shaders that were created through it, the oldest one first. -/
structure Scene where
  context : Context
  shaders : List Shader

/-- **An operation** on a scene. Shaders are given by their places; where there is none at a place,
nothing happens. -/
inductive Operation where
  | registerChunk (name template : String)
  | registerChunks (sources : List (String × String))
  | removeChunk (name : String)
  /-- Puts another library in the place of the one there is. -/
  | replaceLibrary (library : Library)
  | registerStruct (s : StructDef)
  | clearCache
  /-- Asks for the programs of a configuration. -/
  | build (config : Config)
  /-- Creates a shader. -/
  | create (config : Config)
  /-- Copies a shader, which then has flags of its own. -/
  | copy (i : Nat)
  | setFlag (i : Nat) (name : String) (value : FlagValue)
  | setFlags (i : Nat) (flags : Flags)

namespace Scene

/-- The scene of a context, without shaders. -/
def ofContext (ctx : Context) : Scene :=
  ⟨ctx, []⟩

/-- The scene with a shader updated. -/
def update (s : Scene) (i : Nat)
    (f : Shader → Noted (Except BuildError Unit × Shader × Context)) : Scene :=
  match s.shaders[i]? with
  | none => s
  | some shader => ⟨(f shader).value.2.2, s.shaders.set i (f shader).value.2.1⟩

/-- **The scene after an operation.** -/
def step (s : Scene) : Operation → Scene
  | .registerChunk name template =>
    { s with context := (s.context.registerChunk name template).value }
  | .registerChunks sources => { s with context := (s.context.registerChunks sources).value }
  | .removeChunk name => { s with context := s.context.removeChunk name }
  | .replaceLibrary library => { s with context := { s.context with library := library } }
  | .registerStruct d => { s with context := s.context.registerStruct d }
  | .clearCache => { s with context := s.context.clearCache }
  | .build config => { s with context := (s.context.getOrBuild config).value.2 }
  | .create config =>
    match (Shader.create s.context config).value with
    | (.ok shader, ctx) => ⟨ctx, s.shaders ++ [shader]⟩
    | (.error _, ctx) => { s with context := ctx }
  | .copy i => { s with shaders := s.shaders ++ s.shaders[i]?.toList }
  | .setFlag i name value => s.update i fun shader => shader.setFlag s.context name value
  | .setFlags i flags => s.update i fun shader => shader.setFlags s.context flags

/-- **The scene after operations**, one after the other. -/
def run (s : Scene) (ops : List Operation) : Scene :=
  ops.foldl step s

/-- **The configuration that an operation requests** the programs of, if it does. -/
def request? (s : Scene) : Operation → Option Config
  | .build config => some config
  | .create config => some config
  | .setFlag i name value => s.shaders[i]?.map fun shader =>
      { shader.config with flags := shader.config.flags.insert name value }
  | .setFlags i flags => s.shaders[i]?.map fun shader =>
      { shader.config with flags := shader.config.flags.merge flags }
  | _ => none

/-- **The configurations that operations request**, in order. -/
def requests (s : Scene) : List Operation → List Config
  | [] => []
  | op :: ops => (s.request? op).toList ++ (s.step op).requests ops

/-- A run of two histories in a row is the run of the second from where the first leads. -/
theorem run_append (s : Scene) (ops ops' : List Operation) :
    s.run (ops ++ ops') = (s.run ops).run ops' :=
  List.foldl_append

/-- The last operation of a history is a step from where those before it lead. -/
theorem run_concat (s : Scene) (ops : List Operation) (op : Operation) :
    s.run (ops ++ [op]) = (s.run ops).step op := by
  rw [run_append]
  rfl

/-- The requests of two histories in a row are those of the first, and those of the second from where the
first leads. -/
theorem requests_append (s : Scene) (ops ops' : List Operation) :
    s.requests (ops ++ ops') = s.requests ops ++ (s.run ops).requests ops' := by
  induction ops generalizing s with
  | nil => rfl
  | cons op ops ih =>
    rw [List.cons_append, requests, requests, ih, List.append_assoc]
    rfl

/-- What an operation requests in the middle of a run is among the requests of the run. -/
theorem mem_requests {s : Scene} {ops ops' : List Operation} {op : Operation} {c : Config}
    (h : (s.run ops).request? op = some c) : c ∈ s.requests (ops ++ op :: ops') := by
  rw [requests_append, requests, h]
  simp

/-! ### What a step does to the context -/

/-- An update of a shader acts on the context as a request does. -/
theorem context_rebuild (shader : Shader) (ctx : Context) (config : Config) :
    (shader.rebuild ctx config).value.2.2 = (ctx.getOrBuild config).value.2 := by
  simp only [Shader.rebuild, Logged.value_bind]
  split <;> rfl

/-- **A request acts on the context as a build does**, whichever operation makes it. -/
theorem context_step_of_request {s : Scene} {op : Operation} {c : Config}
    (h : s.request? op = some c) : (s.step op).context = (s.context.getOrBuild c).value.2 := by
  cases op with
  | build config =>
    cases h
    rfl
  | create config =>
    cases h
    simp only [step, Shader.create, Logged.value_bind, Logged.value_pure]
    cases (s.context.getOrBuild c).value.1 <;> rfl
  | setFlag i name value =>
    obtain ⟨shader, hshader, rfl⟩ := Option.map_eq_some_iff.1 h
    simp only [step, update, hshader, Shader.setFlag, context_rebuild]
  | setFlags i flags =>
    obtain ⟨shader, hshader, rfl⟩ := Option.map_eq_some_iff.1 h
    simp only [step, update, hshader, Shader.setFlags, context_rebuild]
  | _ => cases h

/-- **All other operations keep the cache**, unless it is cleared. -/
theorem cache_step_of_no_request {s : Scene} {op : Operation} (h : s.request? op = none)
    (hop : op ≠ .clearCache) :
    (s.step op).context.cache = s.context.cache ∧ (s.step op).context.built = s.context.built := by
  cases op with
  | clearCache => exact absurd rfl hop
  | build config => cases h
  | create config => cases h
  | setFlag i name value =>
    have hi : s.shaders[i]? = none := Option.map_eq_none_iff.1 h
    simp [step, update, hi]
  | setFlags i flags =>
    have hi : s.shaders[i]? = none := Option.map_eq_none_iff.1 h
    simp [step, update, hi]
  | _ => exact ⟨rfl, rfl⟩

end Scene

end ShaderWeave
