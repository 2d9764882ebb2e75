import Mathlib.Data.List.Nodup
import ShaderWeave.Proofs.Config.Identity
import ShaderWeave.Proofs.Context.Run

set_option autoImplicit false

/-!
# The cache cannot be told from building

Programs are kept under the digest of their configuration. If that digest tells the configurations of
a run apart, every request is answered as by a build of that very configuration at an earlier point:
when programs with the digest were first built since the cache was last cleared. From then on the
answer stays the same, whatever is registered, and a build that fails changes nothing.

## Main definitions

* `ShaderWeave.Scene.Succeeds` — an operation gets programs with a digest.
* `ShaderWeave.Scene.BuiltSince` — some operation did since the cache was last cleared.
* `ShaderWeave.Scene.IsFirstBuild` — an operation was the first one that did.
* `ShaderWeave.Scene.CacheInvariant` — what the cache holds after some operations.
* `ShaderWeave.Scene.Numbered` — programs are numbered as they are built.
* `ShaderWeave.Config.Separated` — the digest tells configurations apart.

## Main results

* `ShaderWeave.Scene.IsFirstBuild.unique` — there is one first build.
* `ShaderWeave.Scene.cacheInvariant` — the invariant holds after every run.
* `ShaderWeave.Scene.cached?_run` — programs stay in the cache until it is cleared.
* `ShaderWeave.Scene.eq_of_serial_eq` — a number belongs to one program of the cache.
* `ShaderWeave.Scene.getOrBuild_transparent` — the answer to every request of a run.
-/

namespace ShaderWeave

namespace Scene

/-! ### Histories -/

/-- **An operation gets programs with a digest**: it requests a configuration with that digest, and
the request does not fail. -/
def Succeeds (s : Scene) (op : Operation) (d : Digest) : Prop :=
  ∃ c r, s.request? op = some c ∧ c.digest = d ∧ (s.context.getOrBuild c).value.1 = .ok r

/-- **Some operation got programs with a digest** since the cache was last cleared. -/
def BuiltSince (s : Scene) (ops : List Operation) (d : Digest) : Prop :=
  ∃ p op q, ops = p ++ op :: q ∧ .clearCache ∉ q ∧ (s.run p).Succeeds op d

/-- **An operation was the first one to get programs with a digest** since the cache was last
cleared: that was before the operation, and none in between got such programs. -/
structure IsFirstBuild (s : Scene) (ops : List Operation) (d : Digest) (p : List Operation)
    (op : Operation) (q : List Operation) : Prop where
  split : ops = p ++ op :: q
  kept : .clearCache ∉ q
  succeeds : (s.run p).Succeeds op d
  first : ¬s.BuiltSince p d

/-- An operation that gets programs does not clear the cache. -/
theorem Succeeds.ne_clearCache {s : Scene} {op : Operation} {d : Digest} (h : s.Succeeds op d) :
    op ≠ .clearCache := by
  obtain ⟨c, r, hc, -⟩ := h
  rintro rfl
  cases hc

/-- After one more operation, programs were built since the last clearing by that one or before. -/
theorem builtSince_concat (s : Scene) (ops : List Operation) (op : Operation) (d : Digest) :
    s.BuiltSince (ops ++ [op]) d ↔
      (s.run ops).Succeeds op d ∨ (op ≠ .clearCache ∧ s.BuiltSince ops d) := by
  constructor
  · rintro ⟨p, op', q, hsplit, hq, hsucceeds⟩
    rcases List.eq_nil_or_concat q with rfl | ⟨q, a, rfl⟩
    · obtain ⟨rfl, hop⟩ := List.append_inj' hsplit rfl
      cases hop
      exact .inl hsucceeds
    · rw [List.concat_eq_append, ← List.cons_append, ← List.append_assoc] at hsplit
      obtain ⟨rfl, hop⟩ := List.append_inj' hsplit rfl
      cases hop
      rw [List.concat_eq_append, List.mem_append, not_or] at hq
      refine .inr ⟨?_, p, op', q, rfl, hq.1, hsucceeds⟩
      rintro rfl
      exact hq.2 (by simp)
  · rintro (h | ⟨hop, p, op', q, rfl, hq, hsucceeds⟩)
    · exact ⟨ops, op, [], rfl, by simp, h⟩
    · refine ⟨p, op', q ++ [op], by simp, ?_, hsucceeds⟩
      rw [List.mem_append, not_or, List.mem_singleton]
      exact ⟨hq, hop.symm⟩

/-- A first build stays the first one until the cache is cleared. -/
theorem IsFirstBuild.concat {s : Scene} {ops p q : List Operation} {op : Operation} {d : Digest}
    (h : s.IsFirstBuild ops d p op q) {op' : Operation} (hop' : op' ≠ .clearCache) :
    s.IsFirstBuild (ops ++ [op']) d p op (q ++ [op']) := by
  refine ⟨by simp [h.split], ?_, h.succeeds, h.first⟩
  rw [List.mem_append, not_or, List.mem_singleton]
  exact ⟨h.kept, hop'.symm⟩

/-- No first build comes before another one, which it would be an earlier build for. -/
theorem IsFirstBuild.length_le {s : Scene} {ops p q p' q' : List Operation} {op op' : Operation}
    {d : Digest} (h : s.IsFirstBuild ops d p op q) (h' : s.IsFirstBuild ops d p' op' q') :
    p'.length ≤ p.length := by
  by_contra hlt
  have hsplit : p ++ op :: q = p' ++ op' :: q' := h.split.symm.trans h'.split
  rcases List.append_eq_append_iff.1 hsplit with ⟨a, ha, hq⟩ | ⟨a, ha, -⟩
  · cases a with
    | nil =>
      rw [List.append_nil] at ha
      exact hlt (by rw [ha])
    | cons b a =>
      rw [List.cons_append, List.cons.injEq] at hq
      obtain ⟨rfl, rfl⟩ := hq
      refine h'.first ⟨p, op, a, ha, fun hmem => h.kept ?_, h.succeeds⟩
      exact List.mem_append_left _ hmem
  · apply hlt
    rw [ha, List.length_append]
    omega

/-- **There is one first build** with a digest. -/
theorem IsFirstBuild.unique {s : Scene} {ops p q p' q' : List Operation} {op op' : Operation}
    {d : Digest} (h : s.IsFirstBuild ops d p op q) (h' : s.IsFirstBuild ops d p' op' q') :
    p = p' ∧ op = op' ∧ q = q' := by
  have hlength : p.length = p'.length := le_antisymm (h'.length_le h) (h.length_le h')
  have hsplit : p ++ op :: q = p' ++ op' :: q' := h.split.symm.trans h'.split
  obtain ⟨hp, hcons⟩ := List.append_inj hsplit hlength
  exact ⟨hp, List.cons.inj hcons⟩

/-! ### What the cache holds -/

/-- **What the cache holds after some operations**: programs of the first build with their digest
since the cache was last cleared, and such programs for every digest with a build since then. -/
structure CacheInvariant (s : Scene) (ops : List Operation) : Prop where
  origin : ∀ r ∈ (s.run ops).context.cache, ∃ p op q c,
    s.IsFirstBuild ops r.program.digest p op q ∧ (s.run p).request? op = some c ∧
      ((s.run p).context.builder.build c).value = .ok r.program
  complete : ∀ d, s.BuiltSince ops d → ((s.run ops).context.cached? d).isSome = true

/-- An operation that keeps the context, and does not clear the cache, keeps the invariant if what it
requests is in the cache. -/
theorem CacheInvariant.concat_of_cache_eq {s : Scene} {ops : List Operation} {op : Operation}
    (h : s.CacheInvariant ops) (hop : op ≠ .clearCache)
    (hcache : (s.run (ops ++ [op])).context.cache = (s.run ops).context.cache)
    (hrequest : ∀ d, (s.run ops).Succeeds op d → ((s.run ops).context.cached? d).isSome = true) :
    s.CacheInvariant (ops ++ [op]) := by
  constructor
  · intro r hr
    rw [hcache] at hr
    obtain ⟨p, op₀, q, c, hfirst, hc, hbuild⟩ := h.origin r hr
    exact ⟨p, op₀, q ++ [op], c, hfirst.concat hop, hc, hbuild⟩
  · intro d hd
    rw [Context.cached?, hcache, ← Context.cached?]
    rcases (s.builtSince_concat ops op d).1 hd with hsucceeds | ⟨-, hbuilt⟩
    · exact hrequest d hsucceeds
    · exact h.complete d hbuilt

/-- **One operation keeps the invariant.**

**Proof sketch.** Clearing leaves no programs and no builds since then. What requests nothing keeps
the cache, as do requests of programs that are in it or cannot be built. Programs that are built now
were not in the cache, so by completeness this is the first build with their digest. -/
theorem CacheInvariant.concat {s : Scene} {ops : List Operation} (h : s.CacheInvariant ops)
    (op : Operation) : s.CacheInvariant (ops ++ [op]) := by
  by_cases hop : op = .clearCache
  · subst hop
    -- the cache is empty, and nothing was built since it was cleared
    constructor
    · intro r hr
      rw [run_concat] at hr
      cases hr
    · intro d hd
      rcases (s.builtSince_concat ops _ d).1 hd with hsucceeds | ⟨hne, -⟩
      · exact absurd rfl hsucceeds.ne_clearCache
      · exact absurd rfl hne
  cases hrequest : (s.run ops).request? op with
  | none =>
    -- no program is asked for, so the cache stays
    refine h.concat_of_cache_eq hop ?_ ?_
    · rw [run_concat]
      exact (cache_step_of_no_request hrequest hop).1
    · rintro d ⟨c, r, hc, -⟩
      rw [hrequest] at hc
      cases hc
  | some config =>
    have hstep : (s.run (ops ++ [op])).context =
        ((s.run ops).context.getOrBuild config).value.2 := by
      rw [run_concat]
      exact context_step_of_request hrequest
    rcases (s.run ops).context.getOrBuild_cases config with
      ⟨r, hcached, hvalue⟩ | ⟨p, hcached, hbuild, hvalue⟩ | ⟨e, hcached, hbuild, hvalue⟩
    · -- a program of the cache is handed out again
      refine h.concat_of_cache_eq hop (by rw [hstep, hvalue]) ?_
      rintro d ⟨c, r', hc, rfl, -⟩
      rw [hrequest] at hc
      cases hc
      rw [hcached]
      rfl
    · -- a new program is built, and it is the first one with its digest
      have hdigest : p.digest = config.digest := (Builder.name_of_build hbuild).2
      constructor
      · intro r hr
        rw [hstep, hvalue] at hr
        rcases List.mem_append.1 hr with hold | hnew
        · obtain ⟨p, op₀, q, c, hfirst, hc, hb⟩ := h.origin r hold
          exact ⟨p, op₀, q ++ [op], c, hfirst.concat hop, hc, hb⟩
        · cases List.mem_singleton.1 hnew
          refine ⟨ops, op, [], config, ⟨rfl, by simp, ?_, ?_⟩, hrequest, hbuild⟩
          · exact ⟨config, _, hrequest, hdigest.symm, by rw [hvalue]⟩
          · intro hbuilt
            have hsome := h.complete _ hbuilt
            rw [hdigest, hcached] at hsome
            cases hsome
      · intro d hd
        rw [hstep, hvalue, Context.cached?_append, Option.isSome_or, Bool.or_eq_true]
        rcases (s.builtSince_concat ops op d).1 hd with ⟨c, r, hc, rfl, -⟩ | ⟨-, hbuilt⟩
        · rw [hrequest] at hc
          cases hc
          exact .inr (by simp [hdigest])
        · exact .inl (h.complete d hbuilt)
    · -- nothing is built, so the cache stays
      refine h.concat_of_cache_eq hop (by rw [hstep, hvalue]) ?_
      rintro d ⟨c, r', hc, -, hr'⟩
      rw [hrequest] at hc
      cases hc
      rw [hvalue] at hr'
      cases hr'

/-- **The invariant holds after every run** from a context with an empty cache. -/
theorem cacheInvariant {s : Scene} (hs : s.context.cache = []) (ops : List Operation) :
    s.CacheInvariant ops := by
  induction ops using List.reverseRecOn with
  | nil =>
    constructor
    · intro r hr
      rw [show (s.run []).context.cache = [] from hs] at hr
      cases hr
    · rintro d ⟨p, op, q, hsplit, -⟩
      simp at hsplit
  | append_singleton ops op ih => exact ih.concat op

/-! ### Answers stay the same -/

/-- Programs stay in the cache in every operation but its clearing. -/
theorem cached?_step {s : Scene} {op : Operation} (hop : op ≠ .clearCache) {d : Digest} {r : Cached}
    (h : s.context.cached? d = some r) : (s.step op).context.cached? d = some r := by
  cases hrequest : s.request? op with
  | none => rwa [Context.cached?, (cache_step_of_no_request hrequest hop).1, ← Context.cached?]
  | some config =>
    rw [context_step_of_request hrequest]
    rcases s.context.getOrBuild_cases config with
      ⟨_, _, hvalue⟩ | ⟨_, _, _, hvalue⟩ | ⟨_, _, _, hvalue⟩
    · rwa [hvalue]
    · rw [hvalue, Context.cached?_append, h, Option.some_or]
    · rwa [hvalue]

/-- **Programs stay in the cache until it is cleared.** -/
theorem cached?_run {s : Scene} {ops : List Operation} (hops : .clearCache ∉ ops) {d : Digest}
    {r : Cached} (h : s.context.cached? d = some r) : (s.run ops).context.cached? d = some r := by
  induction ops generalizing s with
  | nil => exact h
  | cons op ops ih =>
    rw [List.mem_cons, not_or] at hops
    exact ih hops.2 (cached?_step (Ne.symm hops.1) h)

/-! ### Numbers of programs -/

/-- **Programs are numbered as they are built**: later ones in the cache have greater numbers, and
the next number is greater still. -/
structure Numbered (s : Scene) : Prop where
  increasing : s.context.cache.Pairwise fun a b => a.serial < b.serial
  below : ∀ r ∈ s.context.cache, r.serial < s.context.built

/-- **Programs stay numbered as they are built** in every operation. -/
theorem Numbered.step {s : Scene} (h : s.Numbered) (op : Operation) : (s.step op).Numbered := by
  by_cases hop : op = .clearCache
  · subst hop
    exact ⟨List.Pairwise.nil, fun r hr => absurd hr List.not_mem_nil⟩
  cases hrequest : s.request? op with
  | none =>
    obtain ⟨hcache, hbuilt⟩ := cache_step_of_no_request hrequest hop
    exact ⟨by rw [hcache]; exact h.increasing, by rw [hcache, hbuilt]; exact h.below⟩
  | some config =>
    have hstep := context_step_of_request hrequest
    rcases s.context.getOrBuild_cases config with
      ⟨_, _, hvalue⟩ | ⟨p, _, _, hvalue⟩ | ⟨_, _, _, hvalue⟩
    · rw [hvalue] at hstep
      exact ⟨by rw [hstep]; exact h.increasing, by rw [hstep]; exact h.below⟩
    · rw [hvalue] at hstep
      constructor
      · rw [hstep]
        refine List.pairwise_append.2 ⟨h.increasing, List.pairwise_singleton _ _, ?_⟩
        intro a ha b hb
        rw [List.mem_singleton.1 hb]
        exact h.below a ha
      · rw [hstep]
        intro r hr
        rcases List.mem_append.1 hr with hold | hnew
        · exact Nat.lt_succ_of_lt (h.below r hold)
        · rw [List.mem_singleton.1 hnew]
          exact Nat.lt_succ_self _
    · rw [hvalue] at hstep
      exact ⟨by rw [hstep]; exact h.increasing, by rw [hstep]; exact h.below⟩

/-- Programs are numbered as they are built in every run that starts with an empty cache. -/
theorem numbered_run {s : Scene} (hs : s.context.cache = []) (ops : List Operation) :
    (s.run ops).Numbered := by
  have hstart : s.Numbered := by
    constructor
    · rw [hs]
      exact List.Pairwise.nil
    · intro r hr
      rw [hs] at hr
      cases hr
  clear hs
  induction ops generalizing s with
  | nil => exact hstart
  | cons op ops ih => exact ih (hstart.step op)

/-- **A number belongs to one program** of the cache, after every run. -/
theorem eq_of_serial_eq {s : Scene} (hs : s.context.cache = []) (ops : List Operation)
    {a b : Cached} (ha : a ∈ (s.run ops).context.cache) (hb : b ∈ (s.run ops).context.cache)
    (hab : a.serial = b.serial) : a = b := by
  have hnodup : ((s.run ops).context.cache.map Cached.serial).Nodup :=
    List.pairwise_map.2 ((numbered_run hs ops).increasing.imp Nat.ne_of_lt)
  exact List.inj_on_of_nodup_map hnodup ha hb hab

end Scene

/-! ### The answer to every request -/

/-- **The digest tells configurations apart**: no two of them have one digest and different texts. -/
def Config.Separated (configs : List Config) : Prop :=
  ∀ c ∈ configs, ∀ d ∈ configs, c.digest = d.digest → c.toJson.toText = d.toJson.toText

namespace Scene

/-- **The answer to every request of a run** that starts with an empty cache, where all numbers among
the flags are finite and the digest tells the requested configurations apart.

Programs that are returned have the digest and the name of the configuration. They are what a build
of that very configuration gave when programs with the digest were first built since the cache was
last cleared. Every later request with the digest returns the same ones until the cache is cleared.
An error is the one that a build gives now, and then the context stays as it was.

**Proof sketch.** Programs that are returned are in the cache after the operation, so the invariant
names their first build. The configuration of that build has the digest, hence the text, hence all
parts of the requested one. -/
theorem getOrBuild_transparent (library : Library) (structs : StructRegistry) (settings : Settings)
    (ops : List Operation) (op : Operation) (config : Config) :
    let s := Scene.ofContext (.ofParts library structs settings)
    let now := (s.run ops).context
    (s.run ops).request? op = some config →
    (∀ c ∈ s.requests (ops ++ [op]), c.flags.Finite) →
    Config.Separated (s.requests (ops ++ [op])) →
    (∀ r, (now.getOrBuild config).value.1 = .ok r →
      (r.program.digest = config.digest ∧ r.program.name = config.name) ∧
      (∃ p op₀ q, s.IsFirstBuild (ops ++ [op]) config.digest p op₀ q ∧
        ((s.run p).context.builder.build config).value = .ok r.program) ∧
      ∀ later c, .clearCache ∉ later → c.digest = config.digest →
        ((s.run (ops ++ op :: later)).context.getOrBuild c).value.1 = .ok r) ∧
    ∀ e, (now.getOrBuild config).value.1 = .error e →
      (now.builder.build config).value = .error e ∧ (s.run (ops ++ [op])).context = now := by
  intro s now hrequest hfinite hseparated
  have hstep : (s.run (ops ++ [op])).context = (now.getOrBuild config).value.2 := by
    rw [run_concat]
    exact context_step_of_request hrequest
  constructor
  · intro r hr
    have hcached : (s.run (ops ++ [op])).context.cached? config.digest = some r := by
      rw [hstep]
      exact Context.cached?_of_getOrBuild hr
    obtain ⟨hmem, hdigest⟩ := Context.mem_of_cached? hcached
    obtain ⟨p, op₀, q, c, hfirst, hc, hbuild⟩ := (cacheInvariant rfl (ops ++ [op])).origin r hmem
    rw [hdigest] at hfirst
    obtain ⟨hname, hdigest'⟩ := Builder.name_of_build hbuild
    -- the configuration of the first build is the requested one
    have hcmem : c ∈ s.requests (ops ++ [op]) := by
      rw [hfirst.split]
      exact mem_requests hc
    have hmemConfig : config ∈ s.requests (ops ++ [op]) := mem_requests hrequest
    have htext := hseparated c hcmem config hmemConfig (hdigest'.symm.trans hdigest)
    obtain rfl : c = config :=
      (Config.toText_inj (hfinite c hcmem) (hfinite config hmemConfig)).1 htext
    refine ⟨⟨hdigest, hname⟩, ⟨p, op₀, q, hfirst, hbuild⟩, ?_⟩
    intro later c' hlater hc'
    have hrun : s.run (ops ++ op :: later) = (s.run (ops ++ [op])).run later := by
      rw [← run_append, List.append_assoc, List.singleton_append]
    rw [hrun, Context.getOrBuild_of_cached (cached?_run hlater (hc' ▸ hcached))]
  · intro e he
    rw [hstep]
    rcases now.getOrBuild_cases config with
      ⟨_, _, hvalue⟩ | ⟨_, _, _, hvalue⟩ | ⟨e', _, hbuild, hvalue⟩
    · rw [hvalue] at he
      cases he
    · rw [hvalue] at he
      cases he
    · rw [hvalue] at he ⊢
      cases he
      exact ⟨hbuild, rfl⟩

/-- A configuration with one chunk. -/
def tinted : Config :=
  ⟨"tinted", [], [], [], [.named "tint"], Table.empty, none, none⟩

/-- The registration of that chunk, with a call of its own. -/
def registerTint (call : String) : Operation :=
  .registerChunk "tint" ("@fragment \x7b\x7b " ++ call ++ " \x7d\x7d")

/-- A scene without chunks, whose settings leave programs unformatted. -/
def plainScene : Scene :=
  .ofContext (.ofParts Table.empty Table.empty { Settings.default with formatOutput := false })

/-- The program of a configuration is the same when the chunk it uses has changed in between. -/
theorem getOrBuild_transparent_tinted :
    ((plainScene.run [registerTint "one();"]).request? (.build tinted) = some tinted ∧
      (∀ c ∈ plainScene.requests [registerTint "one();", .build tinted], c.flags.Finite) ∧
      Config.Separated (plainScene.requests [registerTint "one();", .build tinted])) ∧
    ∃ r, ((plainScene.run [registerTint "one();"]).context.getOrBuild tinted).value.1 = .ok r ∧
      Text.occurs "one();".toList r.program.fragment = true ∧ r.program.name = "tinted" ∧
      ((plainScene.run
        [registerTint "one();", .build tinted, registerTint "two();"]).context.getOrBuild
          tinted).value.1 = .ok r := by
  have hrequests : plainScene.requests [registerTint "one();", .build tinted] = [tinted] := rfl
  have hfinite : ∀ c ∈ plainScene.requests [registerTint "one();", .build tinted],
      c.flags.Finite := by
    intro c hc
    rw [hrequests, List.mem_singleton] at hc
    rw [hc]
    exact Flags.finite_empty
  have hseparated :
      Config.Separated (plainScene.requests [registerTint "one();", .build tinted]) := by
    intro c hc d hd _
    rw [hrequests, List.mem_singleton] at hc hd
    rw [hc, hd]
  have hbuilt : (match ((plainScene.run [registerTint "one();"]).context.builder.build
        tinted).value with
      | .ok p => Text.occurs "one();".toList p.fragment
      | .error _ => false) = true := by
    decide +kernel
  refine ⟨⟨rfl, hfinite, hseparated⟩, ?_⟩
  cases hp : ((plainScene.run [registerTint "one();"]).context.builder.build tinted).value with
  | error e =>
    rw [hp] at hbuilt
    cases hbuilt
  | ok p =>
    rw [hp] at hbuilt
    have hr : ((plainScene.run [registerTint "one();"]).context.getOrBuild tinted).value.1 =
        .ok ⟨0, p⟩ := by
      rw [Context.getOrBuild_of_ok rfl hp]
      rfl
    obtain ⟨⟨-, hname⟩, -, hlater⟩ := (getOrBuild_transparent _ _ _ [registerTint "one();"]
      (.build tinted) tinted rfl hfinite hseparated).1 _ hr
    refine ⟨_, hr, hbuilt, hname, hlater [registerTint "two();"] tinted ?_ rfl⟩
    simp [registerTint]

end Scene

end ShaderWeave
