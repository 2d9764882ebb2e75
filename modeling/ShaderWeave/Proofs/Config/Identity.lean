import Mathlib.Data.List.Forall2
import ShaderWeave.Config
import ShaderWeave.Proofs.Json.Reading
import ShaderWeave.Proofs.Number.ReadBack

set_option autoImplicit false

/-!
# The text of a configuration identifies it

The digest of a configuration is taken over its JSON text, so configurations that share a text share
a program. They are the same configuration then: the text can be read back, a reference to a chunk is
told from a chunk by its kind, an absent part from an empty one by null, and the numeral of a number
from that of an integer by its point or exponent. Only numbers that are not finite get lost in it.

## Main definitions

* `ShaderWeave.FlagValue.IsFinite` — a value that is no infinite number and no NaN.
* `ShaderWeave.Flags.Finite` — all numbers among the flags are finite.
* `ShaderWeave.ChunkRef.Agrees` — the same name, or chunks with the same name and template.
* `ShaderWeave.Config.Agrees` — configurations with the same parts, part by part.

## Main results

* `ShaderWeave.FlagValue.toJson_inj` — finite values with one JSON value are equal.
* `ShaderWeave.Config.toJson_inj` — so are configurations with finite flags.
* `ShaderWeave.Config.toText_eq_iff_agrees` — configurations have one text exactly if they agree.
-/

namespace ShaderWeave

open Number

/-! ### Parts of a configuration -/

namespace Json

/-- Strings with one JSON value are equal. -/
theorem ofString_injective : Function.Injective ofString := by
  intro s t h
  simpa [ofString] using h

/-- Integers with one JSON value are equal. -/
theorem ofInt_injective : Function.Injective ofInt := by
  intro m n h
  simp only [ofInt, Json.number.injEq, Numeral.ofInt, Numeral.mk.injEq, decide_eq_decide] at h
  omega

/-- Records with the same members, in order, are the only ones with one value. -/
theorem record_injective : Function.Injective record := by
  have hmember : Function.Injective fun p : String × Json => (some p.1, p.2) := by
    rintro ⟨k, v⟩ ⟨l, w⟩ h
    simpa using h
  intro ms ns h
  exact hmember.list_map (Json.object.inj h)

/-- An absent value differs from all that are there, as none of those is null. -/
theorem ofOption_injective {α : Type} {f : α → Json} (hf : Function.Injective f)
    (hnull : ∀ a, f a ≠ .null) : Function.Injective (ofOption f) := by
  intro a b h
  cases a with
  | none =>
    cases b with
    | none => rfl
    | some b => exact absurd h.symm (hnull b)
  | some a =>
    cases b with
    | none => exact absurd h (hnull a)
    | some b => rw [hf h]

/-- Optional strings with one JSON value are equal, as no string is null. -/
theorem ofOption_ofString_injective : Function.Injective (ofOption ofString) :=
  ofOption_injective ofString_injective (by simp [ofString])

end Json

namespace Config

/-- Locations with one JSON value are equal. -/
theorem locationJson_injective : Function.Injective locationJson := by
  refine Json.ofOption_injective ?_ (by simp [Json.ofInt])
  intro m n h
  have hnat : m.toNat = n.toNat := by exact_mod_cast Json.ofInt_injective h
  exact UInt32.toNat_inj.1 hnat

/-- Attributes with one JSON value are equal. -/
theorem attributeJson_injective : Function.Injective attributeJson := by
  intro a b h
  simp only [attributeJson, Json.record_injective.eq_iff, List.cons.injEq, Prod.mk.injEq, true_and,
    and_true, Json.ofString_injective.eq_iff, locationJson_injective.eq_iff] at h
  obtain ⟨hname, htype, hlocation⟩ := h
  cases a
  cases b
  simp_all

/-- Varyings with one JSON value are equal. -/
theorem varyingJson_injective : Function.Injective varyingJson := by
  intro v w h
  simp only [varyingJson, Json.record_injective.eq_iff, List.cons.injEq, Prod.mk.injEq, true_and,
    and_true, Json.ofString_injective.eq_iff, Json.ofOption_ofString_injective.eq_iff] at h
  obtain ⟨hname, htype, hinterpolation⟩ := h
  cases v
  cases w
  simp_all

/-- Outputs with one JSON value are equal. -/
theorem outputJson_injective : Function.Injective outputJson := by
  intro o p h
  simp only [outputJson, Json.record_injective.eq_iff, List.cons.injEq, Prod.mk.injEq, true_and,
    and_true, Json.ofString_injective.eq_iff, locationJson_injective.eq_iff] at h
  obtain ⟨hlocation, hname, htype⟩ := h
  cases o
  cases p
  simp_all

end Config

namespace ChunkRef

/-- **References agree**: both are the same name, or both are chunks with one name and one
template. -/
inductive Agrees : ChunkRef → ChunkRef → Prop
  | named (name : String) : Agrees (.named name) (.named name)
  | inline {c d : Chunk} (hname : c.name = d.name) (htemplate : c.template = d.template) :
      Agrees (.inline c) (.inline d)

/-- References agree if and only if they are equal. -/
theorem agrees_iff_eq (r s : ChunkRef) : r.Agrees s ↔ r = s := by
  constructor
  · rintro (_ | ⟨hname, htemplate⟩)
    · rfl
    · rw [Chunk.ext_template hname htemplate]
  · rintro rfl
    cases r with
    | named name => exact .named name
    | inline c => exact .inline rfl rfl

/-- References with one JSON value are equal: a name is a string, and a chunk is an object. -/
theorem toJson_injective : Function.Injective toJson := by
  intro r s h
  cases r with
  | named m =>
    cases s with
    | named n => rw [Json.ofString_injective h]
    | inline d => simp [toJson, Json.ofString, Chunk.toJson, Json.record] at h
  | inline c =>
    cases s with
    | named n => simp [toJson, Json.ofString, Chunk.toJson, Json.record] at h
    | inline d =>
      simp only [toJson, Chunk.toJson, Json.record_injective.eq_iff, List.cons.injEq,
        Prod.mk.injEq, true_and, and_true, Json.ofString_injective.eq_iff] at h
      rw [Chunk.ext_template h.1 h.2]

end ChunkRef

/-! ### Flags -/

namespace FlagValue

/-- **A finite value**: if it is a number of 64 bits, it is neither infinite nor a NaN. -/
def IsFinite : FlagValue → Prop
  | .float x => x.isFinite = true
  | _ => True

/-- The JSON value of a finite number is a numeral that is not written as an integer. -/
theorem toJson_float {x : Binary64} (h : x.isFinite = true) :
    ∃ n, (FlagValue.float x).toJson = .number n ∧
      Numeral.ofBinary64 jsonLayout x = some n ∧ n.IsFractional := by
  obtain ⟨n, hn, -, -, hfractional⟩ := Numeral.ofBinary64_spec jsonLayout h
  exact ⟨n, by rw [toJson, hn]; rfl, hn, hfractional⟩

/-- An integer and a finite number have different JSON values, since a number is written with a point or
an exponent. -/
theorem toJson_int_ne_float (i : Int64) {x : Binary64} (h : x.isFinite = true) :
    (FlagValue.int i).toJson ≠ (FlagValue.float x).toJson := by
  obtain ⟨n, hn, -, hfractional⟩ := toJson_float h
  rw [hn]
  intro heq
  have hnum : Numeral.ofInt i.toInt = n := by simpa [toJson, Json.ofInt] using heq
  rw [← hnum] at hfractional
  simp [Numeral.IsFractional, Numeral.ofInt] at hfractional

/-- **Finite values with one JSON value are equal**, in kind and in value. -/
theorem toJson_inj {v w : FlagValue} (hv : v.IsFinite) (hw : w.IsFinite)
    (h : v.toJson = w.toJson) : v = w := by
  match v, w with
  | .bool a, .bool b => simpa [toJson] using h
  | .int m, .int n => rw [Int64.toInt_inj.1 (Json.ofInt_injective h)]
  | .text s, .text t => rw [Json.ofString_injective h]
  | .float x, .float y =>
    obtain ⟨m, hm, hxm, -⟩ := toJson_float hv
    obtain ⟨n, hn, hyn, -⟩ := toJson_float hw
    rw [hm, hn, Json.number.injEq] at h
    rw [Numeral.ofBinary64_injOn jsonLayout hv hw (by rw [hxm, hyn, h])]
  | .int m, .float y => exact absurd h (toJson_int_ne_float m hw)
  | .float x, .int n => exact absurd h.symm (toJson_int_ne_float n hv)
  | .bool _, .float y =>
    obtain ⟨n, hn, -⟩ := toJson_float hw
    rw [hn] at h
    cases h
  | .float x, .bool _ =>
    obtain ⟨n, hn, -⟩ := toJson_float hv
    rw [hn] at h
    cases h
  | .text _, .float y =>
    obtain ⟨n, hn, -⟩ := toJson_float hw
    rw [hn] at h
    cases h
  | .float x, .text _ =>
    obtain ⟨n, hn, -⟩ := toJson_float hv
    rw [hn] at h
    cases h
  | .bool _, .int _ => cases h
  | .bool _, .text _ => cases h
  | .int _, .bool _ => cases h
  | .int _, .text _ => cases h
  | .text _, .bool _ => cases h
  | .text _, .int _ => cases h

end FlagValue

namespace Flags

/-- **All numbers among the flags are finite.** -/
def Finite (flags : Flags) : Prop :=
  ∀ key value, flags.get? key = some value → value.IsFinite

/-- There are no numbers among no flags. -/
theorem finite_empty : Finite Table.empty := by
  intro key value h
  simp at h

/-- Setting a finite value keeps flags finite. -/
theorem Finite.insert {flags : Flags} (h : flags.Finite) {value : FlagValue}
    (hvalue : value.IsFinite) (name : String) : Finite (Table.insert flags name value) := by
  intro key v hv
  rw [Table.get?_insert] at hv
  split at hv
  · rwa [← Option.some.inj hv]
  · exact h key v hv

/-- Entries with one JSON value are equal if their values are finite. -/
theorem entries_eq_of_toJson_eq {es fs : List (String × FlagValue)} (he : ∀ p ∈ es, p.2.IsFinite)
    (hf : ∀ p ∈ fs, p.2.IsFinite)
    (h : es.map (fun p => (p.1, p.2.toJson)) = fs.map (fun p => (p.1, p.2.toJson))) :
    es = fs := by
  induction es generalizing fs with
  | nil => exact (List.map_eq_nil_iff.1 h.symm).symm
  | cons p es ih =>
    obtain ⟨q, fs, rfl, hhead, htail⟩ := List.map_eq_cons_iff.1 h.symm
    have hvalue : p.2 = q.2 := by
      refine FlagValue.toJson_inj (he p (by simp)) (hf q (by simp)) ?_
      exact (congrArg Prod.snd hhead).symm
    have hname : p.1 = q.1 := (congrArg Prod.fst hhead).symm
    rw [Prod.ext hname hvalue, ih (fun p hp => he p (by simp [hp])) (fun q hq => hf q (by simp [hq]))
      htail.symm]

/-- **Finite flags with one JSON value are equal.** -/
theorem toJson_inj {a b : Flags} (ha : a.Finite) (hb : b.Finite) (h : a.toJson = b.toJson) :
    a = b := by
  have hfinite : ∀ {t : Flags}, t.Finite → ∀ p ∈ t.entries, p.2.IsFinite := by
    intro t ht p hp
    exact ht p.1 p.2 (Table.mem_entries.1 hp)
  have hentries : a.entries = b.entries :=
    entries_eq_of_toJson_eq (hfinite ha) (hfinite hb) (Json.record_injective h)
  obtain ⟨es, hes⟩ := a
  obtain ⟨fs, hfs⟩ := b
  subst hentries
  rfl

end Flags

/-! ### Configurations -/

namespace Config

/-- **Configurations with the same parts**: names, attributes, varyings and outputs in their order,
with an absent location or interpolation different from every one that is there; chunks in their
order; flags by look-up, however they were set; and templates. -/
structure Agrees (a b : Config) : Prop where
  name : a.name = b.name
  attributes : a.attributes = b.attributes
  varyings : a.varyings = b.varyings
  outputs : a.outputs = b.outputs
  chunks : List.Forall₂ ChunkRef.Agrees a.chunks b.chunks
  flags : ∀ key, a.flags.get? key = b.flags.get? key
  vertexTemplate : a.vertexTemplate = b.vertexTemplate
  fragmentTemplate : a.fragmentTemplate = b.fragmentTemplate

/-- Configurations with the same parts are equal. -/
theorem agrees_iff_eq (a b : Config) : a.Agrees b ↔ a = b := by
  have hchunks : ∀ rs ss, List.Forall₂ ChunkRef.Agrees rs ss ↔ rs = ss := by
    intro rs ss
    have heq : ChunkRef.Agrees = Eq := by
      funext r s
      exact propext (r.agrees_iff_eq s)
    rw [heq, List.forall₂_eq_eq_eq]
  constructor
  · intro h
    have hflags := Table.ext_get? h.flags
    have hrefs := (hchunks _ _).1 h.chunks
    obtain ⟨hname, hattributes, hvaryings, houtputs, -, -, hvertex, hfragment⟩ := h
    cases a
    cases b
    simp_all
  · rintro rfl
    exact ⟨rfl, rfl, rfl, rfl, (hchunks _ _).2 rfl, fun _ => rfl, rfl, rfl⟩

/-- **Configurations with finite flags and one JSON value are equal.** -/
theorem toJson_inj {a b : Config} (ha : a.flags.Finite) (hb : b.flags.Finite)
    (h : a.toJson = b.toJson) : a = b := by
  simp only [toJson, Json.record_injective.eq_iff, List.cons.injEq, Prod.mk.injEq, true_and,
    and_true, Json.ofString_injective.eq_iff, Json.array.injEq,
    attributeJson_injective.list_map.eq_iff, varyingJson_injective.list_map.eq_iff,
    outputJson_injective.list_map.eq_iff, ChunkRef.toJson_injective.list_map.eq_iff,
    Json.ofOption_ofString_injective.eq_iff] at h
  obtain ⟨hname, hattributes, hvaryings, houtputs, hchunks, hflags, hvertex, hfragment⟩ := h
  have hflags := Flags.toJson_inj ha hb hflags
  cases a
  cases b
  simp_all

/-- Configurations with finite flags have one text exactly if they are equal. -/
theorem toText_inj {a b : Config} (ha : a.flags.Finite) (hb : b.flags.Finite) :
    a.toJson.toText = b.toJson.toText ↔ a = b := by
  constructor
  · intro h
    exact toJson_inj ha hb (Json.toText_injective h)
  · rintro rfl
    rfl

/-- **The text of a configuration identifies it.** Configurations whose numbers are finite have one
JSON text exactly if they have the same parts. -/
theorem toText_eq_iff_agrees {a b : Config} (ha : a.flags.Finite) (hb : b.flags.Finite) :
    a.toJson.toText = b.toJson.toText ↔ a.Agrees b := by
  rw [toText_inj ha hb, agrees_iff_eq]

/-- A configuration with one chunk and with the given flags. -/
def foggy (flags : Flags) : Config :=
  ⟨"foggy", [⟨"position", "vec3<f32>", none⟩], [], [], [.named "fog"], flags, none, none⟩

/-- One as a number of 64 bits. -/
def oneFloat : FlagValue :=
  .float ⟨0x3ff0000000000000⟩

/-- The order in which flags are set leaves the text as it is, and so does a value that is replaced later.
An integer in the place of a number with a point changes it. -/
theorem toText_eq_iff_agrees_foggy :
    let set : Flags := (Table.empty.insert "FOG" (.bool true)).insert "DENSITY" oneFloat
    let reset : Flags :=
      ((Table.empty.insert "DENSITY" (.int 1)).insert "FOG" (.bool true)).insert "DENSITY" oneFloat
    let int : Flags := (Table.empty.insert "FOG" (.bool true)).insert "DENSITY" (.int 1)
    (set.Finite ∧ reset.Finite ∧ int.Finite) ∧
      (foggy set).toJson.toText = (foggy reset).toJson.toText ∧
      (foggy set).toJson.toText ≠ (foggy int).toJson.toText := by
  intro set reset int
  have hone : oneFloat.IsFinite := by
    show Binary64.isFinite _ = true
    decide
  have htrue : (FlagValue.bool true).IsFinite := trivial
  have hint1 : (FlagValue.int 1).IsFinite := trivial
  have hset : set.Finite := (Flags.finite_empty.insert htrue "FOG").insert hone "DENSITY"
  have hreset : reset.Finite :=
    ((Flags.finite_empty.insert hint1 "DENSITY").insert htrue "FOG").insert hone "DENSITY"
  have hint : int.Finite := (Flags.finite_empty.insert htrue "FOG").insert hint1 "DENSITY"
  refine ⟨⟨hset, hreset, hint⟩, ?_, ?_⟩
  · have hagrees : (foggy set).Agrees (foggy reset) := by
      refine ⟨rfl, rfl, rfl, rfl, .cons (.named "fog") .nil, fun key => ?_, rfl, rfl⟩
      simp only [foggy, set, reset, Table.get?_insert]
      split_ifs <;> rfl
    exact (toText_eq_iff_agrees hset hreset).2 hagrees
  · intro htext
    have hflags := ((toText_eq_iff_agrees hset hint).1 htext).flags "DENSITY"
    simp [foggy, set, int, Table.get?_insert, oneFloat] at hflags

end Config

end ShaderWeave
