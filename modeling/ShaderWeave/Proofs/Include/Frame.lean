import ShaderWeave.Proofs.Include.Strictness

set_option autoImplicit false

/-!
# What a collection depends on

A collection looks up the names that it visits, one after the other; a strict one ends at the first name
that it does not accept. So it depends on the chunks that can be included only through what is found for
these names. A name for which nothing is found leads nowhere, and a tolerant collection is the same with
it or without.

## Main definitions

* `ShaderWeave.Scope.upToFirst` — a list up to its first element of a kind.
* `ShaderWeave.Scope.lookedUp` — the names that a collection looks up.

## Main results

* `ShaderWeave.Scope.collect_congr` — scopes in which the same is found for these names.
* `ShaderWeave.Scope.collect_of_unresolved` — a name without a chunk among those of a text.
-/

namespace ShaderWeave

namespace Scope

/-! ### The names that are looked up -/

/-- **A list up to its first element of a kind**, which is the last one that is left. -/
def upToFirst {α : Type} (p : α → Bool) : List α → List α
  | [] => []
  | a :: as => if p a then [a] else a :: upToFirst p as

/-- Whether a strict collection ends at a visit: there is no chunk, or it has a defect. -/
def isRejected : String × Option Chunk → Bool
  | (_, none) => true
  | (_, some c) => c.defects ≠ []

/-- **The names that a collection looks up** for a text: all that are visited, in a strict one up to the
first one that is not accepted. -/
def lookedUp (scope : Scope) (strict : Bool) (s : Text) : List String :=
  (upToFirst (fun v => strict && isRejected v) (scope.visits (includeNames s))).map Prod.fst

/-- There is an error for the visits at which a strict collection ends. -/
theorem isSome_error? (shader : String) (v : String × Option Chunk) :
    (error? shader v).isSome = isRejected v := by
  obtain ⟨name, _ | c⟩ := v
  · rfl
  · cases h : c.defects <;> simp [error?, isRejected, h]

/-! ### Lists up to the first element of a kind -/

section UpToFirst

variable {α β : Type}

/-- A list without elements of the kind is left whole. -/
theorem upToFirst_eq_self {p : α → Bool} {as : List α} (h : ∀ a ∈ as, p a = false) :
    upToFirst p as = as := by
  induction as with
  | nil => rfl
  | cons a as ih =>
    rw [List.forall_mem_cons] at h
    rw [upToFirst, if_neg (by simp [h.1]), ih h.2]

/-- What is found first is found up to the first element for which there is something. -/
theorem findSome?_upToFirst {f : α → Option β} {p : α → Bool} (hp : ∀ a, (f a).isSome = p a)
    (as : List α) : (upToFirst p as).findSome? f = as.findSome? f := by
  induction as with
  | nil => rfl
  | cons a as ih =>
    have ha := hp a
    rw [upToFirst, List.findSome?_cons]
    cases hf : f a with
    | none =>
      rw [hf] at ha
      rw [if_neg (by simp [← ha]), List.findSome?_cons, hf]
      exact ih
    | some b =>
      rw [hf] at ha
      rw [if_pos (by simp [← ha]), List.findSome?_cons, hf]

end UpToFirst

/-! ### Scopes in which the same is found -/

variable {scope other : Scope}

/-- A name for which the same is found includes the same names. -/
theorem includesOf_congr {name : String} (h : other.find? name = scope.find? name) :
    other.includesOf name = scope.includesOf name := by
  rw [includesOf, includesOf, h]

/-- **The visits are the same up to the first one of a kind** if the same is found for the names of these
visits.

**Proof sketch.** Induction on the visits. At a name for which the same is found both go on with the same
queue. -/
theorem upToFirst_visitsFrom (p : String × Option Chunk → Bool) {seen queue : List String}
    (h : ∀ v ∈ upToFirst p (scope.visitsFrom seen queue), other.find? v.1 = scope.find? v.1) :
    upToFirst p (other.visitsFrom seen queue) = upToFirst p (scope.visitsFrom seen queue) := by
  fun_induction visitsFrom scope seen queue with
  | case1 => rw [visitsFrom]
  | case2 seen name queue ih =>
    have hname : other.find? name = scope.find? name := by
      refine h (name, scope.find? name) ?_
      rw [upToFirst]
      split <;> exact List.mem_cons_self
    have hnew : other.newNames seen name = scope.newNames seen name := by
      rw [newNames, newNames, includesOf_congr hname]
    rw [upToFirst] at h
    rw [visitsFrom, hname, hnew, upToFirst, upToFirst]
    split
    · rfl
    · rename_i hp
      rw [if_neg hp] at h
      rw [ih fun v hv => h v (List.mem_cons_of_mem _ hv)]

/-- **A collection depends on what is found for the names that it looks up**, and on nothing else of the
chunks that can be included. -/
theorem collect_congr {strict : Bool} (shader : String) {s : Text}
    (h : ∀ n ∈ scope.lookedUp strict s, other.find? n = scope.find? n) :
    other.collect strict shader s = scope.collect strict shader s := by
  have hvisits : upToFirst (fun v => strict && isRejected v) (other.visits (includeNames s)) =
      upToFirst (fun v => strict && isRejected v) (scope.visits (includeNames s)) :=
    upToFirst_visitsFrom _ fun v hv => h v.1 (List.mem_map_of_mem hv)
  unfold collect
  generalize other.visits (includeNames s) = vs at hvisits
  generalize scope.visits (includeNames s) = ws at hvisits
  cases strict with
  | false =>
    have hall : ∀ us : List (String × Option Chunk), upToFirst (fun v => false && isRejected v) us = us :=
      fun us => upToFirst_eq_self fun _ _ => rfl
    rw [hall, hall] at hvisits
    rw [hvisits]
  | true =>
    have herror := isSome_error? shader
    simp only [Bool.true_and] at hvisits
    have hfirst : vs.findSome? (error? shader) = ws.findSome? (error? shader) := by
      rw [← findSome?_upToFirst herror, hvisits, findSome?_upToFirst herror]
    -- without an error all visits are looked up
    have hall : ∀ us : List (String × Option Chunk), us.findSome? (error? shader) = none →
        upToFirst isRejected us = us := fun us hus => upToFirst_eq_self fun v hv => by
      rw [← herror v, List.findSome?_eq_none_iff.1 hus v hv]
      rfl
    simp only [if_pos, hfirst]
    cases hnone : ws.findSome? (error? shader) with
    | some e => rfl
    | none =>
      rw [hall ws hnone, hall vs (hfirst.trans hnone)] at hvisits
      rw [hvisits]

/-! ### A name without a chunk -/

/-- The visits depend on which names have come up, and not on their order. -/
theorem visitsFrom_congr {seen seen' queue : List String} (h : ∀ n, n ∈ seen ↔ n ∈ seen') :
    scope.visitsFrom seen queue = scope.visitsFrom seen' queue := by
  fun_induction visitsFrom scope seen queue generalizing seen' with
  | case1 => rw [visitsFrom]
  | case2 seen name queue ih =>
    have hnew : scope.newNames seen name = scope.newNames seen' name := by
      unfold newNames
      simp only [h]
    have hseen : ∀ n, n ∈ seen ++ scope.newNames seen name ↔ n ∈ seen' ++ scope.newNames seen' name := by
      intro n
      rw [List.mem_append, List.mem_append, h, hnew]
    rw [visitsFrom, ih hseen, hnew]

/-- **A name without a chunk leads nowhere**: the chunks of the visits are those of the queue without the
name, if that counts as one that has come up. -/
theorem chunks_of_unresolved {name : String} (h : scope.find? name = none) (seen queue : List String) :
    (scope.visitsFrom seen queue).filterMap Prod.snd =
      (scope.visitsFrom (name :: seen) (queue.filter (· ≠ name))).filterMap Prod.snd := by
  fun_induction visitsFrom scope seen queue with
  | case1 => rw [List.filter_nil, visitsFrom]
  | case2 seen m queue ih =>
    rw [List.filterMap_cons, ih]
    by_cases hm : m = name
    · subst hm
      have hnew : scope.newNames seen m = [] := by simp [newNames, includesOf, h]
      rw [h, hnew, List.append_nil, List.append_nil, List.filter_cons_of_neg (by simp)]
    · have hnew : scope.newNames (name :: seen) m = (scope.newNames seen m).filter (· ≠ name) := by
        unfold newNames
        rw [List.filter_filter]
        refine List.filter_congr fun n _ => ?_
        simp [not_or]
      have hseen : ∀ n, n ∈ name :: (seen ++ scope.newNames seen m) ↔
          n ∈ name :: seen ++ scope.newNames (name :: seen) m := by
        intro n
        rw [hnew]
        by_cases hn : n = name <;> simp [hn]
      rw [List.filter_cons_of_pos (by simpa using hm), visitsFrom, List.filterMap_cons, hnew,
        List.filter_append, visitsFrom_congr hseen, hnew]

/-- Names of a kind can be picked before or after repetitions are dropped. -/
theorem filter_distinct (p : String → Bool) (ns : List String) :
    (Include.distinct ns).filter p = Include.distinct (ns.filter p) := by
  induction ns with
  | nil => rfl
  | cons n ns ih =>
    have hcomm : ((Include.distinct ns).filter (· ≠ n)).filter p =
        (Include.distinct (ns.filter p)).filter (· ≠ n) := by
      rw [← ih, List.filter_filter, List.filter_filter]
      simp only [Bool.and_comm]
    rw [Include.distinct]
    cases hn : p n with
    | true => rw [List.filter_cons_of_pos hn, List.filter_cons_of_pos hn, Include.distinct, hcomm]
    | false =>
      rw [List.filter_cons_of_neg (by simp [hn]), List.filter_cons_of_neg (by simp [hn]), hcomm]
      refine List.filter_eq_self.2 fun m hm => ?_
      rw [Include.mem_distinct, List.mem_filter] at hm
      refine decide_eq_true ?_
      rintro rfl
      rw [hn] at hm
      cases hm.2

/-- **A tolerant collection is the same with a name without a chunk** among those of a text, wherever it
stands. -/
theorem collect_of_unresolved {name : String} (h : scope.find? name = none) (shader : String)
    {s t : Text} {ns ms : List String} (hs : includeNames s = Include.distinct (ns ++ name :: ms))
    (ht : includeNames t = Include.distinct (ns ++ ms)) :
    (scope.collect false shader s).value = (scope.collect false shader t).value := by
  have hfilter : (includeNames s).filter (· ≠ name) = (includeNames t).filter (· ≠ name) := by
    rw [hs, ht, filter_distinct, filter_distinct, List.filter_append, List.filter_append,
      List.filter_cons_of_neg (by simp)]
  have hseen : ∀ n, n ∈ name :: includeNames s ↔ n ∈ name :: includeNames t := by
    intro n
    have hmem := congrArg (n ∈ ·) hfilter
    simp only [List.mem_filter, decide_eq_true_eq, eq_iff_iff] at hmem
    by_cases hn : n = name
    · simp [hn]
    · simpa [hn] using hmem
  have hchunks : (scope.visits (includeNames s)).filterMap Prod.snd =
      (scope.visits (includeNames t)).filterMap Prod.snd := by
    rw [visits, visits, chunks_of_unresolved h (includeNames s), chunks_of_unresolved h (includeNames t),
      hfilter, visitsFrom_congr hseen]
  simp [collect, hchunks]

end Scope

end ShaderWeave
