import ShaderWeave.Chunk.Library
import ShaderWeave.Error
import ShaderWeave.Include.Directive

set_option autoImplicit false

/-!
# Visible chunks and the closure of includes

The chunks that a template can include are those of a library and those that a configuration brings
along; the latter come first. Included chunks may include further ones, in circles too. Visiting goes
breadth first: the names of the template in the order of their directives, then for each visited
chunk the names of its template that have not come up yet. Every name is visited once.

## Main definitions

* `ShaderWeave.Scope` — the chunks that can be included.
* `ShaderWeave.Scope.visits` — the names visited from given ones, with their chunks.
* `ShaderWeave.Scope.collect` — the chunks that a template includes, directly or not.

## Main results

* `ShaderWeave.Scope.unseen_add_length_le` — every name that comes up for the first time leaves fewer
  to come, so that visiting ends.
-/

namespace ShaderWeave

/-- **The chunks that can be included.** -/
structure Scope where
  /-- Chunks that come before those of the library. -/
  inline : List Chunk
  library : Library

/-- The names that the template of a chunk includes. -/
def Chunk.includes (c : Chunk) : List String :=
  includeNames c.template.toList

namespace Scope

/-- **The chunk of a name**: the first one brought along, or else that of the library. -/
def find? (scope : Scope) (name : String) : Option Chunk :=
  (scope.inline.find? (·.name = name)).or (scope.library.find? name)

/-- Every chunk that can be found. -/
def chunks (scope : Scope) : List Chunk :=
  scope.inline ++ scope.library.values

/-- The names that the chunk of a name includes; none if there is no such chunk. -/
def includesOf (scope : Scope) (name : String) : List String :=
  ((scope.find? name).map Chunk.includes).getD []

/-- The names that the chunk of a name includes and that have not come up. -/
def newNames (scope : Scope) (seen : List String) (name : String) : List String :=
  (scope.includesOf name).filter (· ∉ seen)

/-- The names, with repetitions, that chunks of the scope include and that have not come up. -/
def unseen (scope : Scope) (seen : List String) : List String :=
  (scope.chunks.flatMap Chunk.includes).filter (· ∉ seen)

/-- A chunk that is found is one of the chunks in scope. -/
theorem find?_mem {scope : Scope} {name : String} {c : Chunk} (h : scope.find? name = some c) :
    c ∈ scope.chunks := by
  unfold find? at h
  cases hi : scope.inline.find? (·.name = name) with
  | some d =>
    rw [hi, Option.some_or, Option.some.injEq] at h
    exact List.mem_append_left _ (h ▸ List.mem_of_find?_eq_some hi)
  | none =>
    rw [hi, Option.none_or] at h
    exact List.mem_append_right _
      (List.mem_map.2 ⟨(name, c), Table.mem_entries.2 h, rfl⟩)

/-- A name that a chunk adds is one that was not seen yet, so the walk of the includes comes to an end. -/
theorem newNames_subset (scope : Scope) (seen : List String) (name : String) :
    ∀ n ∈ scope.newNames seen name, n ∈ scope.unseen seen := by
  intro n hn
  unfold newNames at hn
  rw [List.mem_filter] at hn
  refine List.mem_filter.2 ⟨?_, hn.2⟩
  unfold includesOf at hn
  cases hf : scope.find? name with
  | none => simp [hf] at hn
  | some c =>
    refine List.mem_flatMap.2 ⟨c, find?_mem hf, ?_⟩
    simpa [hf] using hn.1

/-- A chunk adds no name twice. -/
theorem nodup_newNames (scope : Scope) (seen : List String) (name : String) :
    (scope.newNames seen name).Nodup := by
  unfold newNames includesOf
  cases scope.find? name with
  | none => exact List.nodup_nil
  | some c => exact (Include.nodup_distinct _).filter _

/-- Names without repetitions that occur in a list, and the rest of that list, are not more than the
list. -/
theorem length_add_length_filter_le {new all : List String} (hd : new.Nodup)
    (hs : ∀ n ∈ new, n ∈ all) :
    new.length + (all.filter (· ∉ new)).length ≤ all.length := by
  induction new generalizing all with
  | nil =>
    rw [List.length_nil, Nat.zero_add]
    exact List.length_filter_le _ _
  | cons n new ih =>
    rw [List.nodup_cons] at hd
    have hn : n ∈ all := hs n List.mem_cons_self
    have he : ∀ m ∈ new, m ∈ all.erase n := fun m hm =>
      (List.mem_erase_of_ne (by rintro rfl; exact hd.1 hm)).2 (hs m (List.mem_cons_of_mem _ hm))
    have h₁ := ih hd.2 he
    rw [List.length_erase_of_mem hn] at h₁
    have hpos := List.length_pos_of_mem hn
    have h₂ : (all.filter (· ∉ n :: new)).length ≤ ((all.erase n).filter (· ∉ new)).length := by
      rw [← List.countP_eq_length_filter, ← List.countP_eq_length_filter]
      have hp := (List.perm_cons_erase hn).countP_eq (fun m => decide (m ∉ n :: new))
      rw [hp, List.countP_cons_of_neg (by simp)]
      exact List.countP_mono_left fun m _ hm => by
        simp only [List.mem_cons, not_or, decide_eq_true_eq] at hm ⊢
        exact hm.2
    simp only [List.length_cons]
    omega

/-- Every name that comes up for the first time leaves fewer to come. -/
theorem unseen_add_length_le (scope : Scope) (seen : List String) (name : String) :
    (scope.newNames seen name).length
      + (scope.unseen (seen ++ scope.newNames seen name)).length ≤ (scope.unseen seen).length := by
  have h := length_add_length_filter_le (nodup_newNames scope seen name)
    (newNames_subset scope seen name)
  have he : (scope.unseen seen).filter (· ∉ scope.newNames seen name)
      = scope.unseen (seen ++ scope.newNames seen name) := by
    simp only [unseen, List.filter_filter]
    congr 1
    funext n
    simp [Bool.and_comm]
  rwa [he] at h

/-- **The names visited** from those in the queue, each with its chunk if there is one, when the names
in `seen` have come up already. -/
def visitsFrom (scope : Scope) (seen : List String) :
    (queue : List String) → List (String × Option Chunk)
  | [] => []
  | name :: queue =>
    (name, scope.find? name) :: visitsFrom scope (seen ++ scope.newNames seen name)
      (queue ++ scope.newNames seen name)
termination_by queue => (scope.unseen seen).length + queue.length
decreasing_by
  have := scope.unseen_add_length_le seen name
  simp only [List.length_append, List.length_cons]
  omega

/-- **The names visited** from given ones, which come up first. -/
def visits (scope : Scope) (names : List String) : List (String × Option Chunk) :=
  scope.visitsFrom names names

/-- What is wrong with a visit in a strict build: there is no chunk, or the chunk has a defect. -/
def error? (shader : String) : String × Option Chunk → Option BuildError
  | (name, none) => some (.unresolvedChunk shader name)
  | (_, some c) => c.defects.head?.map (.malformedChunk c.name)

/-- What is noticed about a visit in a tolerant build. -/
def notice? (shader : String) : String × Option Chunk → Option Notice
  | (name, none) => some (.chunkSkipped shader name)
  | (_, some _) => none

/-- **The chunks that a text includes**, directly or not, in the order of their visits. Names without
a chunk are passed over. A strict build fails instead, as it does at a chunk with a defect; the error
is that of the first visit that has one. -/
def collect (scope : Scope) (strict : Bool) (shader : String) (s : Text) :
    Noted (Except BuildError (List Chunk)) :=
  let visits := scope.visits (includeNames s)
  let chunks := visits.filterMap Prod.snd
  if strict then
    match visits.findSome? (error? shader) with
    | some e => pure (.error e)
    | none => pure (.ok chunks)
  else ⟨.ok chunks, visits.filterMap (notice? shader)⟩

end Scope

end ShaderWeave
