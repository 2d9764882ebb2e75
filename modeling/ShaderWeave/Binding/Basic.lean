import ShaderWeave.Json.Basic
import ShaderWeave.Notice

set_option autoImplicit false

/-!
# Bindings

A **binding** is a resource that a program declares: a buffer, a texture or a sampler in a numbered
slot of a numbered group. A program needs each slot once, so bindings are collected in a set with one
binding for each slot: the first declaration counts, and later ones only add the stages that they
were seen in.

## Main definitions

* `ShaderWeave.Binding` — a binding.
* `ShaderWeave.BindingSet` — bindings in the order of their first declarations, with an index by slot.
* `ShaderWeave.BindingSet.insert` — one more declaration.
* `ShaderWeave.BindingSet.InStep` — the list and the index agree.

## Main results

* `ShaderWeave.BindingSet.InStep.insertAll` — declarations keep the list and the index in step.
* `ShaderWeave.BindingSet.InStep.get?_insert` — what look-up finds after a declaration.
-/

namespace ShaderWeave

/-- **A binding.** -/
structure Binding where
  group : UInt32
  binding : UInt32
  /-- The address space, or `handle` for textures and samplers. -/
  kind : String
  /-- The access mode, if one is declared. -/
  access : Option String
  name : String
  type : String
  /-- The stages that declare the slot. -/
  visibility : StageSet
  deriving DecidableEq

namespace Binding

/-- **The slot of a binding**: its group and its number. -/
def slot (b : Binding) : UInt32 × UInt32 :=
  (b.group, b.binding)

/-- The kind of textures and samplers, which are declared without an address space. -/
def handleKind : String :=
  "handle"

/-- A binding that is seen in more stages. -/
def widen (b : Binding) (stages : StageSet) : Binding :=
  { b with visibility := b.visibility.union stages }

/-- A binding as JSON, without the stages. -/
def toJson (b : Binding) : Json :=
  .record [("group", .ofInt b.group.toNat), ("binding", .ofInt b.binding.toNat),
    ("storage_kind", .ofString b.kind), ("access", .ofOption .ofString b.access),
    ("name", .ofString b.name), ("ty", .ofString b.type)]

/-- A binding keeps its slot when it becomes visible to more stages. -/
@[simp] theorem slot_widen (b : Binding) (stages : StageSet) : (b.widen stages).slot = b.slot := rfl

end Binding

/-- **A set of bindings** with one binding for each slot. The bindings stand in a list, and an index
tells for each slot where in the list its binding is. -/
structure BindingSet where
  /-- The bindings, in the order of their first declarations. -/
  entries : List Binding
  /-- The place of the binding of each slot. What was written last about a slot is found first. -/
  index : List ((UInt32 × UInt32) × Nat)

namespace BindingSet

/-- The set without bindings. -/
def empty : BindingSet :=
  ⟨[], []⟩

/-- **One more declaration**, with the answer whether it was added. If the index has a place for its slot,
the binding there only becomes visible in the stages of the declaration. Otherwise the declaration
comes behind all others, and the index gets its place. -/
def insert (set : BindingSet) (b : Binding) : Bool × BindingSet :=
  match set.index.lookup b.slot with
  | some i => (false, { set with entries := set.entries.modify i (·.widen b.visibility) })
  | none =>
    (true,
      { entries := set.entries ++ [b]
        index := (b.slot, set.entries.length) :: set.index })

/-- Further declarations, one after the other. -/
def insertAll (set : BindingSet) (bs : List Binding) : BindingSet :=
  bs.foldl (fun set b => (set.insert b).2) set

/-- The binding of a slot, at the place that the index has for it. -/
def get? (set : BindingSet) (slot : UInt32 × UInt32) : Option Binding :=
  (set.index.lookup slot).bind fun i => set.entries[i]?

/-- Whether a slot has a binding. -/
def contains (set : BindingSet) (slot : UInt32 × UInt32) : Bool :=
  (set.get? slot).isSome

/-- The slots that have bindings, in the order of their first declarations. -/
def slots (set : BindingSet) : List (UInt32 × UInt32) :=
  set.entries.map Binding.slot

/-- What is noticed about one more declaration: that it declares something else than the first one. -/
def notices (set : BindingSet) (b : Binding) : List Notice :=
  match set.get? b.slot with
  | none => []
  | some e =>
    if e.name = b.name ∧ e.type = b.type then []
    else [.bindingShadowed e.group e.binding e.name b.name]

/-- One more declaration, with what is noticed about it. -/
def insertNoting (set : BindingSet) (b : Binding) : Noted BindingSet :=
  ⟨(set.insert b).2, set.notices b⟩

/-- The set as JSON: the list of its bindings. -/
def toJson (set : BindingSet) : Json :=
  .array (set.entries.map Binding.toJson)

/-! ### The list and the index -/

/-- **The list and the index are in step**: the index has a place for a slot exactly if the binding at
this place has the slot. -/
def InStep (set : BindingSet) : Prop :=
  ∀ slot i, set.index.lookup slot = some i ↔ set.slots[i]? = some slot

/-- Nothing is in step with nothing. -/
theorem inStep_empty : empty.InStep := by
  intro slot i
  simp [empty, slots]

/-- **A declaration that is added brings its slot**, behind the others; one that is not changes none. -/
theorem slots_insert (set : BindingSet) (b : Binding) :
    (set.insert b).2.slots = if (set.insert b).1 then set.slots ++ [b.slot] else set.slots := by
  unfold insert slots
  cases set.index.lookup b.slot with
  | none => exact List.map_append
  | some i =>
    refine List.ext_getElem? fun j => ?_
    simp only [List.getElem?_map, List.getElem?_modify, Bool.false_eq_true, if_false]
    cases set.entries[j]? with
    | none => rfl
    | some e => by_cases hij : i = j <;> simp [hij]

variable {set : BindingSet}

/-- A slot has no place in the index exactly if it is not among the slots. -/
theorem InStep.lookup_eq_none_iff (h : set.InStep) {slot : UInt32 × UInt32} :
    set.index.lookup slot = none ↔ slot ∉ set.slots := by
  rw [List.mem_iff_getElem?, not_exists, Option.eq_none_iff_forall_ne_some]
  exact forall_congr' fun i => not_congr (h slot i)

/-- **A declaration is added** exactly if its slot is new. -/
theorem InStep.added_iff (h : set.InStep) {b : Binding} :
    (set.insert b).1 = true ↔ b.slot ∉ set.slots := by
  rw [← h.lookup_eq_none_iff, insert]
  cases set.index.lookup b.slot <;> simp

/-- What stands at a place of a list with one more element behind it. -/
private theorem getElem?_concat_iff {α : Type} {xs : List α} {x y : α} {i : Nat} :
    (xs ++ [x])[i]? = some y ↔ xs[i]? = some y ∨ xs.length = i ∧ x = y := by
  rcases Nat.lt_trichotomy i xs.length with hi | rfl | hi
  · simp [List.getElem?_append_left hi, Nat.ne_of_gt hi]
  · simp
  · have hout : (xs ++ [x])[i]? = none := List.getElem?_eq_none (by simpa using Nat.succ_le_of_lt hi)
    simp [hout, Nat.le_of_lt hi, Nat.ne_of_lt hi]

/-- The place that an index has for a slot, with one more place in it. -/
private theorem lookup_cons_eq (slot : UInt32 × UInt32) (p : (UInt32 × UInt32) × Nat)
    (index : List ((UInt32 × UInt32) × Nat)) :
    (p :: index).lookup slot = if p.1 = slot then some p.2 else index.lookup slot := by
  rw [List.lookup_cons]
  by_cases h : slot = p.1
  · rw [if_pos h.symm, beq_iff_eq.2 h]
  · rw [if_neg (Ne.symm h), beq_false_of_ne h]

/-- **One more declaration keeps the list and the index in step.** -/
theorem InStep.insert (h : set.InStep) (b : Binding) : (set.insert b).2.InStep := by
  intro slot i
  rw [slots_insert]
  cases hfound : set.index.lookup b.slot with
  | some k => simpa [BindingSet.insert, hfound] using h slot i
  | none =>
    have hnew : b.slot ∉ set.slots := h.lookup_eq_none_iff.1 hfound
    have hlength : set.entries.length = set.slots.length := (List.length_map _).symm
    simp only [BindingSet.insert, hfound, if_true, lookup_cons_eq, getElem?_concat_iff, hlength]
    by_cases hslot : b.slot = slot
    · -- the index now has the last place for the slot, and no place before has this slot
      subst hslot
      have hold : set.slots[i]? ≠ some b.slot := fun hi => hnew (List.mem_of_getElem? hi)
      simp [hold]
    · simpa [hslot] using h slot i

/-- **Any further declarations keep the list and the index in step.** -/
theorem InStep.insertAll (h : set.InStep) (bs : List Binding) : (set.insertAll bs).InStep := by
  induction bs generalizing set with
  | nil => exact h
  | cons b bs ih => exact ih (h.insert b)

/-- **No slot occurs twice**: each place of a slot is the one that the index has for it. -/
theorem InStep.nodup (h : set.InStep) : set.slots.Nodup := by
  rw [List.Nodup, List.pairwise_iff_getElem]
  intro i j hi hj hij heq
  have hplace := (h _ i).2 (List.getElem?_eq_getElem hi)
  rw [heq, (h _ j).2 (List.getElem?_eq_getElem hj), Option.some.injEq] at hplace
  omega

/-- The binding at the place that the index has for a slot is in the list. -/
theorem InStep.get?_eq_some_iff (h : set.InStep) {slot : UInt32 × UInt32} {e : Binding} :
    set.get? slot = some e ↔ e ∈ set.entries ∧ e.slot = slot := by
  simp only [get?, Option.bind_eq_some_iff, h slot, slots, List.getElem?_map, Option.map_eq_some_iff]
  constructor
  · rintro ⟨i, ⟨d, hd, hslot⟩, he⟩
    rw [hd, Option.some.injEq] at he
    subst he
    exact ⟨List.mem_of_getElem? hd, hslot⟩
  · rintro ⟨he, hslot⟩
    obtain ⟨i, hi⟩ := List.mem_iff_getElem?.1 he
    exact ⟨i, ⟨e, hi, hslot⟩, hi⟩

/-- A slot has a binding exactly if it is among the slots. -/
theorem InStep.contains_iff (h : set.InStep) {slot : UInt32 × UInt32} :
    set.contains slot = true ↔ slot ∈ set.slots := by
  simp [contains, Option.isSome_iff_exists, h.get?_eq_some_iff, slots]

/-- A declaration is added exactly if its slot has no binding. -/
theorem InStep.fst_insert (h : set.InStep) (b : Binding) :
    (set.insert b).1 = !set.contains b.slot := by
  rw [Bool.eq_iff_iff, h.added_iff, ← h.contains_iff, Bool.not_eq_true', Bool.not_eq_true]

/-- **What look-up finds after a declaration**: at its slot the first binding, seen in more stages,
or the new one; elsewhere what was there. -/
theorem InStep.get?_insert (h : set.InStep) (b : Binding) (slot : UInt32 × UInt32) :
    (set.insert b).2.get? slot =
      if b.slot = slot then some (((set.get? slot).map (·.widen b.visibility)).getD b)
      else set.get? slot := by
  cases hfound : set.index.lookup b.slot with
  | some k =>
    obtain ⟨e, he, heslot⟩ : ∃ e, set.entries[k]? = some e ∧ e.slot = b.slot := by
      simpa [slots] using (h b.slot k).1 hfound
    by_cases hslot : b.slot = slot
    · subst hslot
      simp [BindingSet.insert, get?, hfound, he]
    · -- the place of another slot is another one
      rw [if_neg hslot]
      simp only [BindingSet.insert, get?, hfound]
      refine Option.bind_congr fun i hi => ?_
      have hik : k ≠ i := by
        rintro rfl
        have := (h slot k).1 hi
        rw [(h b.slot k).1 hfound, Option.some.injEq] at this
        exact hslot this
      exact List.getElem?_modify_ne _ _ hik
  | none =>
    simp only [BindingSet.insert, get?, hfound, lookup_cons_eq]
    by_cases hslot : b.slot = slot
    · subst hslot
      simp [hfound]
    · rw [if_neg hslot, if_neg hslot]
      refine Option.bind_congr fun i hi => ?_
      obtain ⟨hlt, _⟩ := List.getElem?_eq_some_iff.1 ((h slot i).1 hi)
      exact List.getElem?_append_left (by simpa [slots] using hlt)

end BindingSet

end ShaderWeave
