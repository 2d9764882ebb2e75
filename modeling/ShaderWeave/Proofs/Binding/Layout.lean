import Mathlib.Data.List.Nodup
import ShaderWeave.Binding.Layout
import ShaderWeave.Proofs.Binding.Collecting

set_option autoImplicit false

/-!
# Layouts are canonical

The layout of a group is made from the bindings of a set by sorting. Since no slot occurs twice in a
set whose list and index are in step, numbers strictly increase along a layout, and a layout is determined by what is in it. What is in
it, in turn, does not depend on the order in which slots were declared, as long as the declarations of
a slot agree on the resource.

## Main definitions

* `ShaderWeave.Binding.Alike` — two declarations agree on the resource in their slot.

## Main results

* `ShaderWeave.BindingSet.InStep.layout_increasing` — numbers strictly increase along a layout.
* `ShaderWeave.BindingSet.eq_of_increasing` — a layout is determined by its slots.
* `ShaderWeave.BindingSet.run_layout_canonical` — the layouts of a set that is filled by any calls.
-/

namespace ShaderWeave

namespace Binding

/-- **Two declarations agree on the resource in their slot**: they have the same kind, access mode and
type. Their names and stages may differ. -/
def Alike (a b : Binding) : Prop :=
  a.kind = b.kind ∧ a.access = b.access ∧ a.type = b.type

/-- Whether two declarations agree on their resource can be computed. -/
instance (a b : Binding) : Decidable (a.Alike b) :=
  inferInstanceAs (Decidable (_ ∧ _ ∧ _))

/-- Declarations that agree on the resource declare the same kind of resource. -/
theorem Alike.resourceType?_eq {a b : Binding} (h : a.Alike b) :
    a.resourceType? = b.resourceType? := by
  obtain ⟨hkind, haccess, htype⟩ := h
  rw [resourceType?, resourceType?, hkind, haccess, htype]

/-- The slot of a layout that a binding takes has the binding's number, stages and resource. -/
theorem layoutEntry?_eq_some_iff {b : Binding} {e : LayoutEntry} :
    b.layoutEntry? = some e ↔
      b.resourceType? = some e.type ∧ b.binding = e.binding ∧ b.visibility = e.visibility := by
  obtain ⟨number, stages, type⟩ := e
  simp only [ layoutEntry?, Option.map_eq_some_iff, LayoutEntry.mk.injEq]
  constructor
  · rintro ⟨_, htype, rfl, rfl, rfl⟩
    exact ⟨htype, rfl, rfl⟩
  · rintro ⟨htype, rfl, rfl⟩
    exact ⟨type, htype, rfl, rfl, rfl⟩

end Binding

namespace BindingSet

variable {set : BindingSet} {group : UInt32}

/-! ### What is in a layout -/

/-- **What is in a layout**: a slot for each binding of the group that has one. -/
theorem mem_layout_iff {e : LayoutEntry} :
    e ∈ set.layout group ↔ ∃ b ∈ set.entries, b.group = group ∧ b.layoutEntry? = some e := by
  rw [layout, (List.mergeSort_perm _ _).mem_iff, List.mem_filterMap]
  simp only [List.mem_filter, decide_eq_true_eq, and_assoc]

/-- Two bindings of a set that have the same group and number are the same. -/
theorem InStep.eq_of_slot_eq (h : set.InStep) {a b : Binding} (ha : a ∈ set.entries)
    (hb : b ∈ set.entries) (hslot : a.slot = b.slot) : a = b := by
  have hfound := h.get?_eq_some_iff.2 ⟨ha, hslot⟩
  rw [h.get?_eq_some_iff.2 ⟨hb, rfl⟩] at hfound
  exact (Option.some.inj hfound).symm

/-- No number occurs twice in a layout. -/
theorem InStep.layout_pairwise_ne (h : set.InStep) :
    (set.layout group).Pairwise fun x y => x.binding ≠ y.binding := by
  have hslots : set.entries.Pairwise fun a b => a.slot ≠ b.slot := List.pairwise_map.1 h.nodup
  rw [layout, (List.mergeSort_perm _ _).pairwise_iff fun h => Ne.symm h]
  rw [List.pairwise_filterMap, List.pairwise_filter]
  refine hslots.imp fun {a b} hab ha hb x hx y hy hxy => hab ?_
  rw [decide_eq_true_eq] at ha hb
  rw [Binding.layoutEntry?_eq_some_iff] at hx hy
  rw [Binding.slot, Binding.slot, ha, hb, hx.2.1, hy.2.1, hxy]

/-- **Numbers strictly increase along a layout.** -/
theorem InStep.layout_increasing (h : set.InStep) :
    (set.layout group).Pairwise fun x y => x.binding < y.binding := by
  have hsorted : (set.layout group).Pairwise fun x y =>
      decide (x.binding.toNat ≤ y.binding.toNat) = true := by
    apply List.pairwise_mergeSort
    · simpa using fun a b c => Nat.le_trans
    · simpa using fun a b => Nat.le_total _ _
  refine (hsorted.and h.layout_pairwise_ne).imp fun {x y} hxy => ?_
  rw [decide_eq_true_eq] at hxy
  have hne : x.binding.toNat ≠ y.binding.toNat := fun he => hxy.2 (UInt32.toNat_inj.1 he)
  rw [UInt32.lt_iff_toNat_lt]
  omega

/-- Slots by increasing number are determined by which they are. -/
theorem eq_of_increasing {es fs : List LayoutEntry}
    (hes : es.Pairwise fun x y => x.binding < y.binding)
    (hfs : fs.Pairwise fun x y => x.binding < y.binding) (h : ∀ e, e ∈ es ↔ e ∈ fs) : es = fs := by
  have hirrefl : ∀ {x y : LayoutEntry}, x.binding < y.binding → x ≠ y := by
    rintro x _ hlt rfl
    exact UInt32.lt_irrefl _ hlt
  refine List.Perm.eq_of_pairwise (fun x y _ _ hxy hyx => ?_) hes hfs
    ((List.perm_ext_iff_of_nodup (hes.imp hirrefl) (hfs.imp hirrefl)).2 h)
  exact absurd hyx (UInt32.lt_asymm hxy)

/-- **The slots of a layout with the number of a binding** of the group: the one that the binding takes,
and none if it has no layout. -/
theorem InStep.filter_layout (h : set.InStep) {b : Binding} (hb : b ∈ set.entries)
    (hgroup : b.group = group) :
    (set.layout group).filter (·.binding = b.binding) = b.layoutEntry?.toList := by
  subst hgroup
  refine eq_of_increasing (h.layout_increasing.filter _) ?_ fun e => ?_
  · cases b.layoutEntry? with
    | none => exact List.Pairwise.nil
    | some e => exact List.pairwise_singleton _ _
  · rw [List.mem_filter, mem_layout_iff, decide_eq_true_eq, Option.mem_toList]
    constructor
    · rintro ⟨⟨a, ha, hgroup, he⟩, hnumber⟩
      have hslot : a.slot = b.slot := by
        rw [Binding.slot, Binding.slot, hgroup, (Binding.layoutEntry?_eq_some_iff.1 he).2.1, hnumber]
      rwa [← h.eq_of_slot_eq ha hb hslot]
    · intro he
      exact ⟨⟨b, hb, rfl, he⟩, (Binding.layoutEntry?_eq_some_iff.1 he).2.1.symm⟩

/-! ### Layouts of collected declarations -/

/-- The binding of a slot is visible in all stages that the slot is declared in. -/
theorem visibility_of_mem_collect {ds : List Binding} {b : Binding}
    (hb : b ∈ (collect ds).entries) : b.visibility = seenIn ds b.slot := by
  have hfound := (inStep_collect ds).get?_eq_some_iff.2 ⟨hb, rfl⟩
  rw [get?_collect, Option.map_eq_some_iff] at hfound
  obtain ⟨first, _, hfirst⟩ := hfound
  exact (congrArg Binding.visibility hfirst).symm

/-- **What is in the layout of declarations**: the resource of a slot is that of its first declaration,
and the slot is seen in the stages of all of them. -/
theorem mem_layout_collect_iff {ds : List Binding} {e : LayoutEntry} :
    e ∈ (collect ds).layout group ↔
      (ds.find? (·.slot = (group, e.binding))).bind Binding.resourceType? = some e.type ∧
        seenIn ds (group, e.binding) = e.visibility := by
  have hget := get?_collect ds (group, e.binding)
  have hstep : (collect ds).InStep := inStep_collect ds
  rw [mem_layout_iff]
  simp only [Binding.layoutEntry?_eq_some_iff]
  constructor
  · rintro ⟨b, hb, hgroup, htype, hnumber, hstages⟩
    have hslot : b.slot = (group, e.binding) := by rw [Binding.slot, hgroup, hnumber]
    rw [hstep.get?_eq_some_iff.2 ⟨hb, hslot⟩, eq_comm, Option.map_eq_some_iff] at hget
    obtain ⟨first, hfirst, rfl⟩ := hget
    rw [hfirst]
    exact ⟨htype, hstages⟩
  · rintro ⟨htype, hstages⟩
    obtain ⟨first, hfirst, htype⟩ := Option.bind_eq_some_iff.1 htype
    rw [hfirst, Option.map_some, hstep.get?_eq_some_iff] at hget
    obtain ⟨hmem, hslot⟩ := hget
    rw [Binding.slot, Prod.mk.injEq] at hslot
    exact ⟨_, hmem, hslot.1, htype, hslot.2, hstages⟩

/-- The stages that a slot is declared in depend only on which declarations there are. -/
theorem seenIn_congr {ds ds' : List Binding} (h : ∀ d, d ∈ ds ↔ d ∈ ds')
    (slot : UInt32 × UInt32) : seenIn ds slot = seenIn ds' slot := by
  refine StageSet.ext_has fun stage => ?_
  rw [seenIn, seenIn, StageSet.has_ofPred, StageSet.has_ofPred, Bool.eq_iff_iff, List.any_eq_true,
    List.any_eq_true]
  simp only [h]

/-- The resource of a slot depends only on which declarations there are, if they agree on it. -/
theorem resourceType?_congr {ds ds' : List Binding} (h : ∀ d, d ∈ ds ↔ d ∈ ds')
    (halike : ∀ a ∈ ds, ∀ b ∈ ds, a.slot = b.slot → a.Alike b) (slot : UInt32 × UInt32) :
    (ds.find? (·.slot = slot)).bind Binding.resourceType? =
      (ds'.find? (·.slot = slot)).bind Binding.resourceType? := by
  cases hfirst : ds.find? (·.slot = slot) with
  | none =>
    have hnone : ds'.find? (·.slot = slot) = none := by
      rw [List.find?_eq_none] at hfirst ⊢
      exact fun d hd => hfirst d ((h d).2 hd)
    rw [hnone]
  | some a =>
    have ha := List.mem_of_find?_eq_some hfirst
    have hslot : a.slot = slot := by simpa using List.find?_some hfirst
    have hsome : (ds'.find? (·.slot = slot)).isSome = true := by
      rw [List.find?_isSome]
      exact ⟨a, (h a).1 ha, by simpa using hslot⟩
    obtain ⟨b, hb⟩ := Option.isSome_iff_exists.1 hsome
    have hbslot : b.slot = slot := by simpa using List.find?_some hb
    have hbmem := (h b).2 (List.mem_of_find?_eq_some hb)
    rw [hb]
    exact (halike a ha b hbmem (hslot.trans hbslot.symm)).resourceType?_eq

/-- **The layouts of a set that is filled by any calls.** Numbers strictly increase along the layout of a
group. Each binding of the group that has a layout has exactly one slot in it, with the resource of the
binding and the stages of all declarations of the slot; a binding without a layout has none; and there
are no other slots. Calls that insert the same declarations, in any order and each any number of times,
give the same layouts, if the declarations of each slot agree on the resource.

**Proof sketch.** Slots of a set are distinct, so sorting by number is strict and a layout is determined
by what is in it. A slot of the layout stands for the first declaration of its slot and the stages of all
of them; the first declaration depends on the order, but its resource does not, and the union of
stages does not either. -/
theorem run_layout_canonical (calls : List Call) (group : UInt32) :
    let ds := calls.flatMap Call.inserted
    let set := run calls
    (set.layout group).Pairwise (fun x y => x.binding < y.binding) ∧
    (∀ b ∈ set.entries, b.group = group →
      (set.layout group).filter (·.binding = b.binding) =
        (b.resourceType?.map fun type => ⟨b.binding, b.visibility, type⟩).toList ∧
      ∀ stage, b.visibility.has stage = true ↔
        ∃ d ∈ ds, d.slot = b.slot ∧ d.visibility.has stage = true) ∧
    (∀ e ∈ set.layout group, ∃ b ∈ set.entries, b.group = group ∧ b.binding = e.binding) ∧
    ∀ calls' : List Call, (∀ d, d ∈ calls'.flatMap Call.inserted ↔ d ∈ ds) →
      (∀ a ∈ ds, ∀ b ∈ ds, a.slot = b.slot → a.Alike b) →
      (run calls').layout group = set.layout group := by
  intro ds set
  have hset : set = collect ds := run_eq_collect calls
  have hstep : set.InStep := inStep_run calls
  refine ⟨hstep.layout_increasing, fun b hb hgroup => ⟨hstep.filter_layout hb hgroup, fun stage => ?_⟩,
    fun e he => ?_, fun calls' hsame halike => ?_⟩
  · rw [hset] at hb
    rw [visibility_of_mem_collect hb, seenIn, StageSet.has_ofPred, List.any_eq_true]
    simp only [decide_eq_true_eq]
  · obtain ⟨b, hb, hgroup, hentry⟩ := mem_layout_iff.1 he
    exact ⟨b, hb, hgroup, (Binding.layoutEntry?_eq_some_iff.1 hentry).2.1⟩
  · refine eq_of_increasing (inStep_run calls').layout_increasing hstep.layout_increasing fun e => ?_
    rw [hset, run_eq_collect, mem_layout_collect_iff, mem_layout_collect_iff,
      ← resourceType?_congr (fun d => (hsame d).symm) halike, seenIn_congr hsame]

/-- A texture, and a uniform buffer that both stages declare, each under a name of its own. -/
def overlay : List Call :=
  [.insert ⟨2, 5, "uniform", none, "eye", "Camera", .single .vertex⟩,
    .insert ⟨2, 0, "handle", none, "map", "texture_2d<f32>", .single .fragment⟩,
    .insert ⟨2, 5, "uniform", none, "camera", "Camera", .single .fragment⟩]

/-- Declared backwards, the buffer has another name and the same place in the layout. -/
theorem run_layout_canonical_overlay :
    (∀ d, d ∈ overlay.reverse.flatMap Call.inserted ↔ d ∈ overlay.flatMap Call.inserted) ∧
    (∀ a ∈ overlay.flatMap Call.inserted, ∀ b ∈ overlay.flatMap Call.inserted,
      a.slot = b.slot → a.Alike b) ∧
    ((run overlay.reverse).get? (2, 5)).map Binding.name = some "camera" ∧
    ((run overlay).get? (2, 5)).map Binding.name = some "eye" ∧
    (run overlay.reverse).layout 2 = (run overlay).layout 2 ∧
    ⟨5, .ofList [.vertex, .fragment], .uniformBuffer⟩ ∈ (run overlay).layout 2 := by
  have hsame : ∀ d,
      d ∈ overlay.reverse.flatMap Call.inserted ↔ d ∈ overlay.flatMap Call.inserted := fun d =>
    ((List.reverse_perm overlay).flatMap_right Call.inserted).mem_iff
  have halike : ∀ a ∈ overlay.flatMap Call.inserted, ∀ b ∈ overlay.flatMap Call.inserted,
      a.slot = b.slot → a.Alike b := by decide
  exact ⟨hsame, halike, by decide, by decide,
    (run_layout_canonical overlay 2).2.2.2 overlay.reverse hsame halike,
    mem_layout_iff.2 (by decide)⟩

end BindingSet

end ShaderWeave
