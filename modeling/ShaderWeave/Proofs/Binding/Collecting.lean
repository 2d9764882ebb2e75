import Mathlib.Data.List.Basic
import Mathlib.Data.List.Induction
import ShaderWeave.Binding.Declaration

set_option autoImplicit false

/-!
# Bindings collected over many declarations

A set of bindings is filled by declarations that are inserted one at a time and by the declarations of
whole programs, in any order. What is in it depends only on the list of all these declarations: there
is one binding for each declared slot, in the order in which slots were first declared. It is the first
declaration of the slot, seen in the stages of all of them. All the while, the index of the set is in
step with its list.

## Main definitions

* `ShaderWeave.BindingSet.seenIn` — the stages that a slot is declared in.
* `ShaderWeave.BindingSet.Call` — an insertion, or the extraction of the bindings of a program.
* `ShaderWeave.BindingSet.run` — the set after calls.

## Main results

* `ShaderWeave.BindingSet.inStep_run` — the index and the list are in step after any calls.
* `ShaderWeave.BindingSet.slots_collect` — slots are in the order of their first declarations.
* `ShaderWeave.BindingSet.get?_collect` — what look-up finds after declarations.
* `ShaderWeave.BindingSet.run_first_wins` — the set after any calls.
-/

namespace ShaderWeave

namespace BindingSet

/-! ### One insertion -/

/-- **The declaration comes behind all others** exactly if the insertion answers that it is added. -/
theorem entries_insert_eq_iff {set : BindingSet} {b : Binding} :
    (set.insert b).2.entries = set.entries ++ [b] ↔ (set.insert b).1 = true := by
  rw [insert]
  cases set.index.lookup b.slot with
  | none => simp
  | some i =>
    refine ⟨fun h => ?_, fun h => absurd h Bool.false_ne_true⟩
    have hlength := congrArg List.length h
    simp at hlength

/-! ### Many insertions -/

/-- The set of declarations, inserted in order. -/
def collect (ds : List Binding) : BindingSet :=
  empty.insertAll ds

/-- **The stages that a slot is declared in.** -/
def seenIn (ds : List Binding) (slot : UInt32 × UInt32) : StageSet :=
  .ofPred fun stage => ds.any fun d => d.slot = slot ∧ d.visibility.has stage

/-- One more declaration is inserted behind the others. -/
theorem collect_concat (ds : List Binding) (b : Binding) :
    collect (ds ++ [b]) = ((collect ds).insert b).2 := by
  rw [collect, insertAll, List.foldl_append]
  rfl

/-- The index and the list of a set of declarations are in step. -/
theorem inStep_collect (ds : List Binding) : (collect ds).InStep :=
  inStep_empty.insertAll ds

/-- The slots of a set are those of the declarations. -/
theorem mem_slots_collect {ds : List Binding} {slot : UInt32 × UInt32} :
    slot ∈ (collect ds).slots ↔ slot ∈ ds.map Binding.slot := by
  induction ds using List.reverseRecOn with
  | nil => rfl
  | append_singleton ds b ih =>
    rw [collect_concat, slots_insert, List.map_append, List.mem_append, ← ih]
    split
    · exact List.mem_append
    · rename_i hadded
      have hb : b.slot ∈ (collect ds).slots :=
        not_not.1 (mt (inStep_collect ds).added_iff.2 hadded)
      refine ⟨.inl, ?_⟩
      rintro (h | h)
      · exact h
      · rwa [List.mem_singleton.1 h]

/-- **Slots are in the order of their first declarations.** -/
theorem slots_collect (ds : List Binding) :
    (collect ds).slots.Pairwise fun x y =>
      (ds.map Binding.slot).idxOf x < (ds.map Binding.slot).idxOf y := by
  induction ds using List.reverseRecOn with
  | nil => exact List.Pairwise.nil
  | append_singleton ds b ih =>
    have hkept : ∀ x ∈ (collect ds).slots,
        ((ds ++ [b]).map Binding.slot).idxOf x = (ds.map Binding.slot).idxOf x := by
      intro x hx
      rw [List.map_append, List.idxOf_append_of_mem (mem_slots_collect.1 hx)]
    have hold : (collect ds).slots.Pairwise fun x y =>
        ((ds ++ [b]).map Binding.slot).idxOf x < ((ds ++ [b]).map Binding.slot).idxOf y :=
      ih.imp_of_mem fun {x y} hx hy hxy => by rwa [hkept x hx, hkept y hy]
    rw [collect_concat, slots_insert]
    split
    · rename_i hadded
      have hb : b.slot ∉ (collect ds).slots := (inStep_collect ds).added_iff.1 hadded
      refine List.pairwise_append.2 ⟨hold, List.pairwise_singleton _ _, fun x hx y hy => ?_⟩
      -- a new slot is first declared by the last declaration
      rw [List.mem_singleton.1 hy, hkept x hx, List.map_append,
        List.idxOf_append_of_notMem fun h => hb (mem_slots_collect.2 h)]
      exact Nat.lt_add_right _ (List.idxOf_lt_length_of_mem (mem_slots_collect.1 hx))
    · exact hold

/-- The stages that a slot is declared in after one more declaration. -/
theorem seenIn_concat (ds : List Binding) (b : Binding) (slot : UInt32 × UInt32) :
    seenIn (ds ++ [b]) slot =
      if b.slot = slot then (seenIn ds slot).union b.visibility else seenIn ds slot := by
  refine StageSet.ext_has fun stage => ?_
  by_cases h : b.slot = slot <;> simp [seenIn, h]

/-- A slot is seen in no stage if there is no declaration of it. -/
theorem seenIn_of_find?_eq_none {ds : List Binding} {slot : UInt32 × UInt32}
    (h : ds.find? (·.slot = slot) = none) : seenIn ds slot = .empty := by
  refine StageSet.ext_has fun stage => ?_
  simp only [List.find?_eq_none, decide_eq_true_eq] at h
  simpa [seenIn] using fun d hd hs => absurd hs (h d hd)

/-- **What look-up finds after declarations**: the first one of the slot, seen in the stages of all of
them, and nothing if there is none. -/
theorem get?_collect (ds : List Binding) (slot : UInt32 × UInt32) :
    (collect ds).get? slot =
      (ds.find? (·.slot = slot)).map fun first => { first with visibility := seenIn ds slot } := by
  induction ds using List.reverseRecOn with
  | nil => rfl
  | append_singleton ds b ih =>
    rw [collect_concat, (inStep_collect ds).get?_insert, ih, List.find?_append, seenIn_concat]
    by_cases h : b.slot = slot
    · rw [if_pos h]
      cases hfirst : ds.find? (·.slot = slot) with
      | some first => simp [h, Binding.widen]
      | none =>
        have hunion : StageSet.empty.union b.visibility = b.visibility :=
          StageSet.ext_has fun stage => by simp
        simp [h, seenIn_of_find?_eq_none hfirst, hunion]
    · cases hfirst : ds.find? (·.slot = slot) <;> simp [h]

/-! ### Calls -/

/-- **A call that fills a set**: the insertion of one declaration, or the extraction of the bindings of
a program. -/
inductive Call where
  | insert (b : Binding)
  | extract (stage : Option Stage) (program : Text)

namespace Call

/-- The declarations that a call inserts, in order. -/
def inserted : Call → List Binding
  | .insert b => [b]
  | .extract stage program => declarations ((stage.map StageSet.single).getD .empty) program

/-- The set after a call. -/
def perform (set : BindingSet) : Call → BindingSet
  | .insert b => (set.insertNoting b).value
  | .extract stage program => (extractBindings stage program set).value

/-- A call inserts its declarations. -/
theorem perform_eq (set : BindingSet) (call : Call) :
    perform set call = set.insertAll call.inserted := by
  cases call with
  | insert b => rfl
  | extract stage program => exact value_extractBindings stage program set

end Call

/-- **The set after calls**, one after the other, starting with no bindings. -/
def run (calls : List Call) : BindingSet :=
  calls.foldl Call.perform empty

/-- **The index and the list are in step** after any calls: each call keeps them so. -/
theorem inStep_run (calls : List Call) : (run calls).InStep := by
  induction calls using List.reverseRecOn with
  | nil => exact inStep_empty
  | append_singleton calls call ih =>
    rw [run, List.foldl_append, ← run, List.foldl_cons, List.foldl_nil, Call.perform_eq]
    exact ih.insertAll call.inserted

/-- Calls insert their declarations, in order. -/
theorem run_eq_collect (calls : List Call) : run calls = collect (calls.flatMap Call.inserted) := by
  induction calls using List.reverseRecOn with
  | nil => rfl
  | append_singleton calls call ih =>
    rw [run, List.foldl_append, ← run, ih, List.flatMap_append, List.flatMap_singleton, collect,
      collect, insertAll, insertAll, List.foldl_append, List.foldl_cons, List.foldl_nil,
      Call.perform_eq, insertAll]

/-- **The set after any calls**, in terms of the declarations that they insert. The list and the index
stay in step: the index has a place for a slot exactly if the binding at this place has the slot. Slots
are distinct, in the order of their first declarations, and they are the declared ones. Look-up by the
index finds the one binding of a slot: it is the first declaration, seen in the stages of all of them. A
further insertion answers that it adds a binding exactly if the slot was never declared, and the binding
then comes last.

**Proof sketch.** The set is that of all declarations, inserted in order. Induction on these: one more
declaration either widens the binding at the place that the index has for its slot, or comes last with
its place in the index. In both cases list and index are in step again, so what the index answers is what
the list has. -/
theorem run_first_wins (calls : List Call) :
    let ds := calls.flatMap Call.inserted
    let set := run calls
    (∀ slot i, set.index.lookup slot = some i ↔ ∃ e, set.entries[i]? = some e ∧ e.slot = slot) ∧
      (set.slots.Nodup ∧
        set.slots.Pairwise fun x y =>
          (ds.map Binding.slot).idxOf x < (ds.map Binding.slot).idxOf y) ∧
      (∀ slot, slot ∈ set.slots ↔ slot ∈ ds.map Binding.slot) ∧
      (∀ slot e, set.get? slot = some e ↔ e ∈ set.entries ∧ e.slot = slot) ∧
      (∀ slot, set.get? slot =
        (ds.find? (·.slot = slot)).map fun first => { first with visibility := seenIn ds slot }) ∧
      ∀ b, ((set.insert b).1 = true ↔ ∀ d ∈ ds, d.slot ≠ b.slot) ∧
        ((set.insert b).1 = true ↔ (set.insert b).2.entries = set.entries ++ [b]) := by
  intro ds set
  have hstep : set.InStep := inStep_run calls
  have hset : set = collect ds := run_eq_collect calls
  refine ⟨fun slot i => ?_, ⟨hstep.nodup, ?_⟩, ?_, fun slot e => hstep.get?_eq_some_iff, ?_,
    fun b => ⟨?_, entries_insert_eq_iff.symm⟩⟩
  · rw [hstep slot i, slots, List.getElem?_map, Option.map_eq_some_iff]
  · rw [hset]
    exact slots_collect ds
  · rw [hset]
    exact fun slot => mem_slots_collect
  · rw [hset]
    exact get?_collect ds
  · rw [hstep.added_iff, hset, mem_slots_collect, List.mem_map]
    constructor
    · intro h d hd hs
      exact h ⟨d, hd, hs⟩
    · rintro h ⟨d, hd, hs⟩
      exact h d hd hs

end BindingSet

end ShaderWeave
