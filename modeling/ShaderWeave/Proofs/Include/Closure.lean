import Mathlib.Data.List.Infix
import ShaderWeave.Include.Scope

set_option autoImplicit false

/-!
# The closure of includes

The names that a text includes, those that their chunks include, and so on, are the names that can be
reached from the text. Visiting finds each of them once, breadth first, although includes may run in
circles, and collecting gives the chunks that there are for them.

## Main definitions

* `ShaderWeave.Include.IsLive` — a line outside block comments includes a name.
* `ShaderWeave.Scope.Reachable` — a name that can be reached from a text.
* `ShaderWeave.Scope.IsDiscovery` — the reachable names in the order of their discovery.
* `ShaderWeave.Library.Named` — each chunk of a library is kept under its own name.

## Main results

* `ShaderWeave.Include.mem_includeNames_iff` — the names of a text are those of its live directives.
* `ShaderWeave.Scope.visited_eq` — what the queue of a visit grows to.
* `ShaderWeave.Scope.IsDiscovery.unique` — there is one order of discovery.
* `ShaderWeave.Scope.collect_tolerant` — collecting gives the chunks of the reachable names, in the
  order of their discovery.
-/

namespace ShaderWeave

open Text Scan

namespace Include

/-! ### Live directives -/

/-- **A live directive**: a line of a text includes the name, and no block comment is open before it. -/
def IsLive (s : Text) (name : String) : Prop :=
  ∃ before line after, lines s = before ++ line :: after ∧
    before.foldl commentOpenAfter false = false ∧ name? line = some name.toList

/-- A directive among lines is one that starts outside block comments. -/
theorem mem_directivesFrom_iff {b : Bool} {ls : List Text} {name : Text} :
    (∃ l, (l, some name) ∈ directivesFrom b ls) ↔
      ∃ before line after, ls = before ++ line :: after ∧
        before.foldl commentOpenAfter b = false ∧ name? line = some name := by
  induction ls generalizing b with
  | nil => simp [directivesFrom]
  | cons l ls ih =>
    simp only [directivesFrom, List.mem_cons, Prod.mk.injEq, exists_or, ih]
    constructor
    · rintro (⟨_, _, hl⟩ | ⟨before, line, after, rfl, hb, hl⟩)
      · cases b with
        | true => simp at hl
        | false => exact ⟨[], l, ls, rfl, rfl, hl.symm⟩
      · exact ⟨l :: before, line, after, rfl, hb, hl⟩
    · rintro ⟨_ | ⟨_, before⟩, line, after, heq, hb, hl⟩
      · obtain ⟨rfl, rfl⟩ := List.cons.inj heq
        rw [List.foldl_nil] at hb
        exact .inl ⟨l, rfl, by rw [hb, hl]; rfl⟩
      · obtain ⟨rfl, rfl⟩ := List.cons.inj heq
        exact .inr ⟨before, line, after, rfl, hb, hl⟩

/-- **The names of a text are those of its live directives.** -/
theorem mem_includeNames_iff {s : Text} {name : String} :
    name ∈ includeNames s ↔ IsLive s name := by
  rw [IsLive, ← mem_directivesFrom_iff, includeNames, mem_distinct, directives]
  simp only [List.mem_filterMap, Option.map_eq_some_iff, Prod.exists]
  constructor
  · rintro ⟨l, t, hm, n, rfl, rfl⟩
    exact ⟨l, by simpa using hm⟩
  · rintro ⟨l, hm⟩
    exact ⟨l, some name.toList, hm, name.toList, rfl, String.ofList_toList⟩

/-! ### Names without repetitions -/

/-- The names of two lists in a row, each once, are those of the first and then those that only the second
has. -/
theorem distinct_append (as bs : List String) :
    distinct (as ++ bs) = distinct as ++ (distinct bs).filter (· ∉ as) := by
  induction as with
  | nil => simp [distinct]
  | cons a as ih =>
    simp only [List.cons_append, distinct, ih, List.filter_append, List.filter_filter]
    congr 2
    refine List.filter_congr fun n _ => ?_
    simp [not_or]

/-- Names that are all different stay as they are. -/
theorem distinct_of_nodup {as : List String} (h : as.Nodup) : distinct as = as := by
  induction as with
  | nil => rfl
  | cons a as ih =>
    rw [List.nodup_cons] at h
    rw [distinct, ih h.2, List.filter_eq_self.2]
    intro n hn
    simp only [ne_eq, decide_eq_true_eq]
    rintro rfl
    exact h.1 hn

/-- The names of a longer list come behind those of its beginning. -/
theorem distinct_prefix {as bs : List String} (h : as <+: bs) : distinct as <+: distinct bs := by
  obtain ⟨cs, rfl⟩ := h
  rw [distinct_append]
  exact List.prefix_append _ _

end Include

/-! ### Reachable names -/

namespace Scope

/-- **A name that can be reached from a text**: a live directive of the text includes it, or one of the
template of a chunk whose name can be reached. -/
inductive Reachable (scope : Scope) (s : Text) : String → Prop where
  | root {name : String} (h : Include.IsLive s name) : Reachable scope s name
  | step {via name : String} {c : Chunk} (hv : Reachable scope s via)
      (hc : scope.find? via = some c) (h : Include.IsLive c.template.toList name) :
      Reachable scope s name

/-- A chunk of the scope includes what its template includes. -/
theorem mem_includesOf {scope : Scope} {via name : String} :
    name ∈ scope.includesOf via ↔
      ∃ c, scope.find? via = some c ∧ Include.IsLive c.template.toList name := by
  unfold includesOf
  cases scope.find? via with
  | none => simp
  | some c => simp [Chunk.includes, Include.mem_includeNames_iff]

/-- **The reachable names in the order of their discovery**: first those of the text, then for each
name of the list in turn those that its chunk includes; of each name only the first appearance
counts. -/
structure IsDiscovery (scope : Scope) (s : Text) (names : List String) : Prop where
  nodup : names.Nodup
  mem_iff : ∀ n, n ∈ names ↔ scope.Reachable s n
  order : names = Include.distinct (includeNames s ++ names.flatMap scope.includesOf)

/-- The names visited from those in a queue. -/
def visitedFrom (scope : Scope) (seen queue : List String) : List String :=
  (scope.visitsFrom seen queue).map Prod.fst

/-- Each visit is to the chunk of its name. -/
theorem visitsFrom_eq_map (scope : Scope) (seen queue : List String) :
    scope.visitsFrom seen queue =
      (scope.visitedFrom seen queue).map fun n => (n, scope.find? n) := by
  unfold visitedFrom
  fun_induction visitsFrom scope seen queue with
  | case1 => rfl
  | case2 seen name queue ih =>
    rw [List.map_cons, List.map_cons, ← ih]

/-- **What a queue grows to**: the names in it, and then those that come up for the first time among
the names that the visited chunks include.

**Proof sketch.** Induction on the visit. The first name of the queue adds its new names, which are
those that come up for the first time in the list of what its chunk includes; the remaining ones come
up first further on. -/
theorem visitedFrom_eq (scope : Scope) (seen queue : List String) :
    scope.visitedFrom seen queue =
      queue ++ (Include.distinct ((scope.visitedFrom seen queue).flatMap scope.includesOf)).filter
        (· ∉ seen) := by
  unfold visitedFrom
  fun_induction visitsFrom scope seen queue with
  | case1 => rfl
  | case2 seen name queue ih =>
    have hnodup : (scope.includesOf name).Nodup := by
      unfold includesOf
      cases scope.find? name with
      | none => exact List.nodup_nil
      | some c => exact Include.nodup_distinct _
    rw [List.map_cons, List.flatMap_cons, Include.distinct_append,
      Include.distinct_of_nodup hnodup, List.filter_append, List.cons_append, ← List.append_assoc]
    change name :: _ = name :: (queue ++ scope.newNames seen name ++ _)
    conv => lhs; rw [ih]
    congr 2
    rw [List.filter_filter]
    refine List.filter_congr fun n _ => ?_
    -- a name that is not new and was not seen is not included by the first chunk
    simp only [newNames, List.mem_append, List.mem_filter, decide_eq_true_eq]
    by_cases hs : n ∈ seen <;> simp [hs]

/-- The names visited from given ones, each once, are the given ones and what they lead to. -/
theorem visited_eq (scope : Scope) {names : List String} (h : names.Nodup) :
    scope.visitedFrom names names =
      Include.distinct (names ++ (scope.visitedFrom names names).flatMap scope.includesOf) := by
  rw [Include.distinct_append, Include.distinct_of_nodup h, ← visitedFrom_eq]

/-- Names visited from reachable ones are reachable. -/
theorem reachable_of_mem_visitedFrom {scope : Scope} {s : Text} {seen queue : List String}
    (hq : ∀ n ∈ queue, scope.Reachable s n) :
    ∀ n ∈ scope.visitedFrom seen queue, scope.Reachable s n := by
  unfold visitedFrom
  fun_induction visitsFrom scope seen queue with
  | case1 => simp
  | case2 seen name queue ih =>
    have hname : scope.Reachable s name := hq name List.mem_cons_self
    have hnew : ∀ n ∈ queue ++ scope.newNames seen name, scope.Reachable s n := by
      intro n hn
      rcases List.mem_append.1 hn with hn | hn
      · exact hq n (List.mem_cons_of_mem _ hn)
      · obtain ⟨c, hc, hlive⟩ := mem_includesOf.1 (List.mem_filter.1 hn).1
        exact .step hname hc hlive
    intro n hn
    rcases List.mem_cons.1 hn with rfl | hn
    · exact hname
    · exact ih hnew n hn

/-- The number of visits is bounded by the names in the queue and those that are still to come up. -/
theorem length_visitedFrom_le (scope : Scope) (seen queue : List String) :
    (scope.visitedFrom seen queue).length ≤ queue.length + (scope.unseen seen).length := by
  unfold visitedFrom
  fun_induction visitsFrom scope seen queue with
  | case1 => simp
  | case2 seen name queue ih =>
    have h := scope.unseen_add_length_le seen name
    simp only [List.map_cons, List.length_cons, List.length_append] at ih ⊢
    omega

/-- The names that are visited from those of a text. -/
def visited (scope : Scope) (s : Text) : List String :=
  scope.visitedFrom (includeNames s) (includeNames s)

/-- A list that holds the names of a text and with each name what its chunk includes holds every
reachable name. -/
theorem Reachable.mem_of_closed {scope : Scope} {s : Text} {names : List String}
    (hroot : ∀ n ∈ includeNames s, n ∈ names)
    (hstep : ∀ m ∈ names, ∀ n ∈ scope.includesOf m, n ∈ names) {n : String}
    (h : scope.Reachable s n) : n ∈ names := by
  induction h with
  | root h => exact hroot _ (Include.mem_includeNames_iff.2 h)
  | step _ hc h ih => exact hstep _ ih _ (mem_includesOf.2 ⟨_, hc, h⟩)

/-- **Visiting discovers the reachable names.** -/
theorem isDiscovery_visited (scope : Scope) (s : Text) :
    scope.IsDiscovery s (scope.visited s) := by
  have hnodup : (includeNames s).Nodup := Include.nodup_distinct _
  have horder := scope.visited_eq hnodup
  refine ⟨?_, fun n => ⟨fun hn => ?_, fun hn => ?_⟩, horder⟩
  · rw [visited, horder]
    exact Include.nodup_distinct _
  · refine reachable_of_mem_visitedFrom (fun m hm => ?_) n hn
    exact .root (Include.mem_includeNames_iff.1 hm)
  · refine hn.mem_of_closed (fun m hm => ?_) fun m hm k hk => ?_
    · rw [visited, horder, Include.mem_distinct]
      exact List.mem_append_left _ hm
    · rw [visited, horder, Include.mem_distinct]
      exact List.mem_append_right _ (List.mem_flatMap.2 ⟨m, hm, hk⟩)

/-! ### The order of discovery -/

variable {scope : Scope} {s : Text} {names : List String}

/-- What a beginning of the list leads to is a beginning of the list. -/
theorem IsDiscovery.distinct_prefix (h : scope.IsDiscovery s names) {front : List String}
    (hf : front <+: names) :
    Include.distinct (includeNames s ++ front.flatMap scope.includesOf) <+: names := by
  obtain ⟨back, rfl⟩ := hf
  have hp : includeNames s ++ front.flatMap scope.includesOf <+:
      includeNames s ++ (front ++ back).flatMap scope.includesOf := by
    rw [List.flatMap_append, ← List.append_assoc]
    exact List.prefix_append _ _
  have hd := Include.distinct_prefix hp
  rwa [← h.order] at hd

/-- **A beginning that is not all leads on**: otherwise it would hold all reachable names. -/
theorem IsDiscovery.length_lt (h : scope.IsDiscovery s names) {front : List String}
    (hf : front <+: names) (hne : front ≠ names) :
    front.length <
      (Include.distinct (includeNames s ++ front.flatMap scope.includesOf)).length := by
  have hd := h.distinct_prefix hf
  by_contra hle
  have hsub : ∀ n ∈ includeNames s ++ front.flatMap scope.includesOf, n ∈ front := by
    intro n hn
    have hpre := List.prefix_of_prefix_length_le hd hf (Nat.le_of_not_lt hle)
    exact hpre.subset (Include.mem_distinct.2 hn)
  have hall : ∀ n ∈ names, n ∈ front := fun n hn =>
    ((h.mem_iff n).1 hn).mem_of_closed (fun m hm => hsub m (List.mem_append_left _ hm))
      fun m hm k hk => hsub k (List.mem_append_right _ (List.mem_flatMap.2 ⟨m, hm, hk⟩))
  obtain ⟨_ | ⟨n, back⟩, rfl⟩ := hf
  · exact hne (List.append_nil front).symm
  · have hn : n ∈ front := hall n (List.mem_append_right _ List.mem_cons_self)
    exact (List.nodup_append.1 h.nodup).2.2 n hn n List.mem_cons_self rfl

/-- **There is one order of discovery.**

**Proof sketch.** Two lists agree in their first `k` names for every `k`, by induction. If this is not
yet all of them, then the names that these `k` lead to are more than `k` and begin both lists. -/
theorem IsDiscovery.unique {names' : List String} (h : scope.IsDiscovery s names)
    (h' : scope.IsDiscovery s names') : names' = names := by
  have hperm : names'.Perm names := (List.perm_ext_iff_of_nodup h'.nodup h.nodup).2 fun n =>
    (h'.mem_iff n).trans (h.mem_iff n).symm
  have hlen : names'.length = names.length := hperm.length_eq
  have htake : ∀ k ≤ names.length, names'.take k = names.take k := by
    intro k hk
    induction k with
    | zero => rfl
    | succ k ih =>
      have hfront := ih (by omega)
      have hne : names.take k ≠ names := fun he => by
        have := congrArg List.length he
        rw [List.length_take] at this
        omega
      have hlt := h.length_lt (List.take_prefix k names) hne
      have hp := List.prefix_iff_eq_take.1 (h.distinct_prefix (List.take_prefix k names))
      have hp' := List.prefix_iff_eq_take.1 (h'.distinct_prefix (List.take_prefix k names'))
      rw [hfront] at hp'
      rw [List.length_take] at hlt
      have hmin := congrArg (List.take (k + 1)) (hp.symm.trans hp')
      rw [List.take_take, List.take_take, Nat.min_eq_left (by omega)] at hmin
      exact hmin.symm
  have hend := htake names.length (Nat.le_refl _)
  rwa [List.take_length, ← hlen, List.take_length] at hend

end Scope

/-! ### Chunks under their own names -/

/-- **A library of named chunks**: each chunk is kept under its own name. -/
def Library.Named (lib : Library) : Prop :=
  ∀ (name : String) (c : Chunk), lib.find? name = some c → c.name = name

namespace Library

/-- The empty library is one of named chunks. -/
theorem named_empty : Named Table.empty :=
  fun _ _ h => nomatch h

/-- Adding a chunk keeps it under its own name. -/
theorem value_add (lib : Library) (c : Chunk) : (lib.add c).value = lib.insert c.name c := by
  unfold add
  split <;> rfl

/-- A library of named chunks is still one with a chunk more. -/
theorem Named.add {lib : Library} (h : lib.Named) (c : Chunk) : (lib.add c).value.Named := by
  intro name d hd
  rw [value_add, Library.find?, Table.get?_insert] at hd
  split at hd
  · rename_i hname
    rw [← Option.some.inj hd, hname]
  · exact h name d hd

/-- A library of named chunks is still one with some chunks more. -/
theorem Named.addAll {lib : Library} (h : lib.Named) (cs : List Chunk) :
    (lib.addAll cs).value.Named := by
  rw [Library.addAll, Logged.value_foldlM]
  induction cs generalizing lib with
  | nil => exact h
  | cons c cs ih => exact ih (h.add c)

/-- A library of named chunks is still one without the chunk of a name. -/
theorem Named.erase {lib : Library} (h : lib.Named) (name : String) :
    Named (Table.erase lib name) := by
  intro n c hc
  rw [Library.find?, Table.get?_erase] at hc
  split at hc
  · exact nomatch hc
  · exact h n c hc

end Library

namespace Scope

/-- What is found under a name is a chunk of that name. -/
theorem name_of_find? {scope : Scope} (h : scope.library.Named) {name : String} {c : Chunk}
    (hc : scope.find? name = some c) : c.name = name := by
  rw [find?, Option.or_eq_some_iff] at hc
  rcases hc with hi | ⟨-, hl⟩
  · simpa using List.find?_some hi
  · exact h name c hl

/-- Chunks that are found for different names have different names. -/
theorem nodup_names {scope : Scope} (h : scope.library.Named) {names : List String}
    (hn : names.Nodup) : ((names.filterMap scope.find?).map Chunk.name).Nodup := by
  have hsub : ((names.filterMap scope.find?).map Chunk.name).Sublist names := by
    induction names with
    | nil => exact List.Sublist.refl _
    | cons name names ih =>
      rw [List.nodup_cons] at hn
      rw [List.filterMap_cons]
      cases hc : scope.find? name with
      | none => exact (ih hn.2).cons _
      | some c =>
        rw [List.map_cons, name_of_find? h hc]
        exact (ih hn.2).cons_cons _
  exact hn.sublist hsub

/-- **Collecting gives the chunks of the reachable names**, in the order of their discovery, of which
there is only one; names without a chunk are passed over. It takes no more visits than there are
names in the text and in the templates of the chunks. In a library of named chunks no name of a
chunk comes up twice.

**Proof sketch.** The visited names are the list that the queue grows to (`visited_eq`), which holds
the names of the text and with each name those that its chunk includes, each once. -/
theorem collect_tolerant (scope : Scope) (shader : String) (s : Text) :
    ∃ names, scope.IsDiscovery s names ∧
      (∀ names', scope.IsDiscovery s names' → names' = names) ∧
      (scope.collect false shader s).value = .ok (names.filterMap scope.find?) ∧
      names.length ≤ (includeNames s).length + (scope.chunks.flatMap Chunk.includes).length ∧
      (scope.library.Named → ((names.filterMap scope.find?).map Chunk.name).Nodup) := by
  have hvisited := scope.isDiscovery_visited s
  refine ⟨scope.visited s, hvisited, fun _ => hvisited.unique, ?_, ?_,
    fun h => nodup_names h hvisited.nodup⟩
  · simp [collect, visits, visitsFrom_eq_map, visited, List.filterMap_map]
  · have hle := scope.length_visitedFrom_le (includeNames s) (includeNames s)
    have hfilter : (scope.unseen (includeNames s)).length ≤
        (scope.chunks.flatMap Chunk.includes).length := List.length_filter_le _ _
    exact hle.trans (Nat.add_le_add_left hfilter _)

end Scope

end ShaderWeave
