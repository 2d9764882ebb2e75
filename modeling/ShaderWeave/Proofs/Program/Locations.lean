import Mathlib.Data.List.Nodup
import ShaderWeave.Program
import ShaderWeave.Proofs.Binding.Printing

set_option autoImplicit false

/-!
# The locations of an interface

Each field that one stage hands to the next, or takes from outside, has a location. Varyings are located
by their places in their list, so no two of them meet. Attributes and outputs may be given locations, and
the ones without are located by their places: these meet a given location if that is the place of
another item. Otherwise no location is taken twice.

A place is a location as long as it is a number of 32 bits. In a longer list the last number stands for
all the places that are not.

## Main definitions

* `ShaderWeave.locations` — the locations that the fields of a struct show.
* `ShaderWeave.LeavesPlaces` — given locations that leave the other items their places.

## Main results

* `ShaderWeave.locations_stageFields` — the locations that the structs of a stage show.
* `ShaderWeave.stage_locations_nodup` — when the locations of each struct are distinct.
-/

namespace ShaderWeave

open Text Scan

/-! ### Locations in fields -/

/-- The number in the attribute `@location(n)` at the start of a field. -/
def shownLocation? (field : Text) : Option UInt32 :=
  (Declaration.readAttribute "location".toList field).map Prod.fst

/-- **The locations that the fields of a struct show**, in the order of the fields. The fields of
builtins show none. -/
def locations (fields : List Text) : List UInt32 :=
  fields.filterMap shownLocation?

/-- Numbers print as the decimals that are read back. -/
theorem toDigits_eq_decimal (n : Nat) : Nat.toDigits 10 n = Number.decimal n := by
  have hchar : ∀ d : Number.Digit, Nat.digitChar d.val = d.char := by decide
  induction n using Number.digits.induct with
  | case1 n h =>
    rw [Nat.toDigits_of_lt_base h, Number.decimal, Number.digits, if_pos h]
    simp [Number.text, ← hchar, Fin.ofNat, Nat.mod_eq_of_lt h]
  | case2 n h ih =>
    rw [Nat.toDigits_of_base_le (by decide) (by omega), ih, Number.decimal, Number.decimal]
    rw [Number.digits.eq_def n, if_neg h]
    simp [Number.text, ← hchar, Fin.ofNat]

/-- **A field shows the location that it was made with.** -/
theorem shownLocation?_locatedField (location : UInt32) (attributes name type : String) :
    shownLocation? (locatedField location attributes name type) = some location := by
  have hdigits : (toString location).toList = Number.decimal location.toNat :=
    Nat.toList_repr.trans (toDigits_eq_decimal _)
  have htext : locatedField location attributes name type =
      [] ++ (attributeText "location" location ++ (" ".toList ++
        (attributes ++ name ++ ": " ++ type).toList)) := by
    have hopen : "@location(".toList = '@' :: ("location".toList ++ ['(']) := by decide
    have hclose : ") ".toList = ')' :: " ".toList := by decide
    unfold locatedField attributeText
    simp only [String.toList_append, hdigits, hopen, hclose, List.append_assoc, List.cons_append,
      List.nil_append]
  rw [htext, shownLocation?, Declaration.readAttribute_written (by decide)]
  rfl

/-! ### Locations of items -/

/-- **The locations of items** that are given some of them. -/
def itemLocations (given : List (Option UInt32)) : List UInt32 :=
  given.mapIdx fun i location => locationOf location i

/-- The locations of two lists of fields in a row are those of each. -/
theorem locations_append (fs gs : List Text) : locations (fs ++ gs) = locations fs ++ locations gs :=
  List.filterMap_append

/-- Fields that are made one for each item show the locations of the items. -/
theorem locations_mapIdx {α : Type} (xs : List α) (given : α → Option UInt32) (field : Nat → α → Text)
    (h : ∀ i x, shownLocation? (field i x) = some (locationOf (given x) i)) :
    locations (xs.mapIdx field) = itemLocations (xs.map given) := by
  rw [locations, itemLocations]
  induction xs using List.reverseRecOn with
  | nil => rfl
  | append_singleton xs x ih => simp [List.mapIdx_append, List.filterMap_append, ih, h]

/-- The fields of outputs show their locations. A single color has the first one. -/
theorem locations_outputFields (outputs : List Output) :
    locations (outputFields outputs) =
      if outputs = [] then [0] else itemLocations (outputs.map (·.location)) := by
  rw [outputFields]
  split
  · exact List.filterMap_cons_some (shownLocation?_locatedField _ _ _ _)
  · exact locations_mapIdx outputs (·.location) _ fun i o => shownLocation?_locatedField _ _ _ _

/-- **The locations that the structs of a stage show.** -/
theorem locations_stageFields (config : Config) :
    locations (stageFields config .vertex).1 = itemLocations (config.attributes.map (·.location)) ∧
    locations (stageFields config .vertex).2 = itemLocations (config.varyings.map fun _ => none) ∧
    locations (stageFields config .fragment).1 = itemLocations (config.varyings.map fun _ => none) ∧
    locations (stageFields config .fragment).2 =
      if config.outputs = [] then [0] else itemLocations (config.outputs.map (·.location)) := by
  have hindices : locations ["@builtin(vertex_index) vertex_index: u32".toList,
      "@builtin(instance_index) instance_index: u32".toList] = [] := by decide
  have hposition : locations [positionField] = [] := by decide
  have hfacing : locations [positionField, "@builtin(front_facing) front_facing: bool".toList] = [] := by
    decide
  have hattributes : locations (attributeFields config.attributes) =
      itemLocations (config.attributes.map (·.location)) :=
    locations_mapIdx config.attributes (·.location) _ fun i a => shownLocation?_locatedField _ _ _ _
  have hvaryings : locations (varyingFields config.varyings) =
      itemLocations (config.varyings.map fun _ => none) :=
    locations_mapIdx config.varyings (fun _ => none) _ fun i v => shownLocation?_locatedField _ _ _ _
  refine ⟨?_, ?_, ?_, locations_outputFields config.outputs⟩
  · exact (locations_append _ _).trans (by rw [hindices, hattributes, List.nil_append])
  · refine (locations_append [positionField] (varyingFields config.varyings)).trans ?_
    rw [hposition, hvaryings, List.nil_append]
  · exact (locations_append _ _).trans (by rw [hfacing, hvaryings, List.nil_append])

/-! ### Distinct locations -/

/-- **Given locations that leave the other items their places**: none is given twice, and none is the
place of an item without a location. -/
structure LeavesPlaces (given : List (Option UInt32)) : Prop where
  distinct : (given.filterMap id).Nodup
  free : ∀ location ∈ given.filterMap id, given[location.toNat]? ≠ some none

/-- A place in a list of at most `2 ^ 32` items is a location. -/
theorem toNat_locationOf_none {i : Nat} (h : i < UInt32.size) : (locationOf none i).toNat = i := by
  rw [locationOf, if_pos h, Option.getD_none]
  exact UInt32.toNat_ofNat_of_lt' h

/-- Locations are distinct if no two items, at different places, meet. -/
theorem nodup_itemLocations_iff_forall (given : List (Option UInt32)) :
    (itemLocations given).Nodup ↔ ∀ i j, (hi : i < given.length) → (hj : j < given.length) →
      locationOf given[i] i = locationOf given[j] j → i = j := by
  have hlength : (itemLocations given).length = given.length := List.length_mapIdx
  rw [List.nodup_iff_injective_getElem]
  constructor
  · intro h i j hi hj heq
    have := @h ⟨i, hlength ▸ hi⟩ ⟨j, hlength ▸ hj⟩ (by simpa [itemLocations] using heq)
    simpa using this
  · rintro h ⟨i, hi⟩ ⟨j, hj⟩ heq
    rw [hlength] at hi hj
    simpa using h i j hi hj (by simpa [itemLocations] using heq)

/-- **The locations of items are distinct** exactly if the given ones leave the others their places.

**Proof sketch.** Two items meet if both are given the same location, or if one is given the place of the
other, which is given none. Two places never meet. -/
theorem nodup_itemLocations_iff {given : List (Option UInt32)} (h : given.length ≤ UInt32.size) :
    (itemLocations given).Nodup ↔ LeavesPlaces given := by
  rw [nodup_itemLocations_iff_forall]
  have hplace : ∀ {i : Nat}, i < given.length → (locationOf none i).toNat = i := fun hi =>
    toNat_locationOf_none (by omega)
  constructor
  · -- two explicit locations that are equal would be a meeting
    refine fun hinj => ⟨?_, ?_⟩
    · rw [List.Nodup, List.pairwise_filterMap, List.pairwise_iff_getElem]
      intro i j hi hj hij a ha b hb hab
      have hgiven : given[i] = some a ∧ given[j] = some b := ⟨ha, hb⟩
      have := hinj i j hi hj (by rw [hgiven.1, hgiven.2, hab]; rfl)
      omega
    · -- so would an explicit location that is the place of an item without one
      intro location hmem hfree
      obtain ⟨i, hi, hgiven⟩ := List.getElem_of_mem (show some location ∈ given by simpa using hmem)
      obtain ⟨hj, hnone⟩ := List.getElem?_eq_some_iff.1 hfree
      have hmeet : locationOf given[i] i = locationOf given[location.toNat] location.toNat := by
        rw [hgiven, hnone]
        exact UInt32.toNat_inj.1 (hplace hj).symm
      have := hinj i location.toNat hi hj hmeet
      rw [← this] at hfree
      simp [hi, hgiven] at hfree
  · rintro ⟨hdistinct, hfree⟩ i j hi hj hmeet
    -- an explicit location is one of those given, whatever item has it
    have hgiven : ∀ {k : Nat} (hk : k < given.length) {location : UInt32}, given[k] = some location →
        location ∈ given.filterMap id := fun hk location h => by
      simpa [h] using List.getElem_mem hk
    cases hgi : given[i] with
    | none =>
      cases hgj : given[j] with
      | none =>
        rw [hgi, hgj] at hmeet
        rw [← hplace hi, hmeet, hplace hj]
      | some b =>
        rw [hgi, hgj] at hmeet
        refine absurd ?_ (hfree b (hgiven hj hgj))
        have : b.toNat = i := by rw [← hplace hi, hmeet]; rfl
        simp [this, hi, hgi]
    | some a =>
      cases hgj : given[j] with
      | none =>
        rw [hgi, hgj] at hmeet
        refine absurd ?_ (hfree a (hgiven hi hgi))
        have : a.toNat = j := by rw [← hplace hj, ← hmeet]; rfl
        simp [this, hj, hgj]
      | some b =>
        have hab : a = b := by simpa [hgi, hgj, locationOf] using hmeet
        rw [List.Nodup, List.pairwise_filterMap, List.pairwise_iff_getElem] at hdistinct
        rcases lt_trichotomy i j with hlt | heq | hlt
        · exact absurd hab (hdistinct i j hi hj hlt a hgi b hgj)
        · exact heq
        · exact absurd hab.symm (hdistinct j i hj hi hlt b hgj a hgi)

/-- Items that are given no locations have all their places. -/
theorem leavesPlaces_of_none {given : List (Option UInt32)} (h : ∀ g ∈ given, g = none) :
    LeavesPlaces given := by
  have hnone : given.filterMap id = [] := List.filterMap_eq_nil_iff.2 h
  refine ⟨?_, fun location hmem => ?_⟩
  · rw [hnone]
    exact List.nodup_nil
  · rw [hnone] at hmem
    cases hmem

/-- **The locations of each struct.** Varyings never share a location. Attributes, and outputs, do not
share one exactly if the locations that they are given are distinct and none of them is the place of one
that is given none.

**Proof sketch.** Each field shows its location as it was made (`locations_stageFields`), so this is
about the numbers (`nodup_itemLocations_iff`). The color that stands for missing outputs is alone. -/
theorem stage_locations_nodup (config : Config) (hattributes : config.attributes.length ≤ UInt32.size)
    (hvaryings : config.varyings.length ≤ UInt32.size)
    (houtputs : config.outputs.length ≤ UInt32.size) :
    ((locations (stageFields config .vertex).1).Nodup ↔
      LeavesPlaces (config.attributes.map (·.location))) ∧
    (locations (stageFields config .vertex).2).Nodup ∧
    (locations (stageFields config .fragment).1).Nodup ∧
    ((locations (stageFields config .fragment).2).Nodup ↔
      LeavesPlaces (config.outputs.map (·.location))) := by
  obtain ⟨hin, hout, hin', hout'⟩ := locations_stageFields config
  have hplaces : (itemLocations (config.varyings.map fun _ => none)).Nodup :=
    (nodup_itemLocations_iff (by simpa using hvaryings)).2 (leavesPlaces_of_none (by simp))
  rw [hin, hout, hin', hout']
  refine ⟨nodup_itemLocations_iff (by simpa using hattributes), hplaces, hplaces, ?_⟩
  split
  · rename_i hnil
    have hcolor : [(0 : UInt32)].Nodup := List.nodup_singleton 0
    exact iff_of_true hcolor (leavesPlaces_of_none (by simp [hnil]))
  · exact nodup_itemLocations_iff (by simpa using houtputs)

/-- A configuration with attributes and outputs only. -/
def Config.ofItems (name : String) (attributes : List Attribute) (outputs : List Output) : Config :=
  ⟨name, attributes, [], outputs, [], Table.empty, none, none⟩

/-- A texture coordinate that moves out of the way of the position leaves its own place free. -/
theorem stage_locations_nodup_textured :
    let config := Config.ofItems "textured"
      [⟨"position", "vec3<f32>", none⟩, ⟨"uv", "vec2<f32>", some 5⟩] []
    LeavesPlaces (config.attributes.map (·.location)) ∧
      (locations (stageFields config .vertex).1).Nodup := by
  intro config
  have hplaces : LeavesPlaces (config.attributes.map (·.location)) := by
    refine ⟨by decide, fun location hmem => ?_⟩
    obtain rfl : location = 5 := by simpa [config, Config.ofItems] using hmem
    decide
  exact ⟨hplaces,
    (stage_locations_nodup config (by decide) (by decide) (by decide)).1.2 hplaces⟩

/-- **The locations that are given may be distinct, and yet two items share one**, if it is the place of
the other. -/
theorem location_met_by_place :
    let config := Config.ofItems "crowded" [⟨"a", "f32", some 1⟩, ⟨"b", "f32", none⟩] []
    (config.attributes.filterMap (·.location)).Nodup ∧ (config.outputs.filterMap (·.location)).Nodup ∧
      ¬ (locations (stageFields config .vertex).1).Nodup := by
  intro config
  refine ⟨by decide, by decide, ?_⟩
  rw [(locations_stageFields config).1]
  decide

end ShaderWeave
