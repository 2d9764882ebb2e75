import Mathlib.Data.Finset.Card
import ShaderWeave.Proofs.Flag.Search

set_option autoImplicit false

/-!
# Stores of flags through their history

Stores come about in steps: flags are set and removed, stores are merged and collected from lists of
settings, and all the while names come up elsewhere, which changes the symbols that are handed out next.
Whatever the steps, a store is in order and holds for each name the value that was last written and not
removed since; so two stores are equal exactly if they hold the same values.

## Main definitions

* `ShaderWeave.FlagStep` — a step.
* `ShaderWeave.FlagStores.run` — the stores after a history of steps.
* `ShaderWeave.FlagStep.value?` — what a history last wrote.
* `ShaderWeave.FlagStep.flags` — the flags that a history makes.
* `ShaderWeave.FlagStore.Holds` — a store that holds values under names.

## Main results

* `ShaderWeave.FlagStores.holds_run` — stores hold what was last written.
* `ShaderWeave.FlagStores.run_finite_map` — stores are finite maps, whatever their history.
-/

namespace ShaderWeave

/-! ### Histories -/

/-- **A step** on stores, which have numbers. A history lists its steps, the last one first. -/
inductive FlagStep where
  /-- Sets a flag, in place or as a store is built. -/
  | set (i : ℕ) (name : String) (value : FlagValue)
  | remove (i : ℕ) (name : String)
  /-- Merges the second store into the first one. -/
  | merge (i j : ℕ)
  /-- Makes a store anew, from a list of settings. -/
  | collect (i : ℕ) (pairs : List (String × FlagValue))
  /-- A name comes up elsewhere. -/
  | intern (name : String)

namespace FlagStep

/-- The last setting of a name in a list. -/
def lastSetting? (name : String) : List (String × FlagValue) → Option FlagValue
  | [] => none
  | p :: ps => (lastSetting? name ps).or (if p.1 = name then some p.2 else none)

/-- **The value that was last written** under a name of a store, unless it was removed since. -/
def value? : List FlagStep → ℕ → String → Option FlagValue
  | [], _, _ => none
  | .set i n value :: earlier, store, name =>
    if store = i ∧ name = n then some value else value? earlier store name
  | .remove i n :: earlier, store, name =>
    if store = i ∧ name = n then none else value? earlier store name
  | .merge i j :: earlier, store, name =>
    if store = i then (value? earlier j name).or (value? earlier i name)
    else value? earlier store name
  | .collect i pairs :: earlier, store, name =>
    if store = i then lastSetting? name pairs else value? earlier store name
  | .intern _ :: earlier, store, name => value? earlier store name

/-- **The flags that a history makes**, by name. -/
def flags : List FlagStep → ℕ → Flags
  | [] => fun _ => Table.empty
  | .set i name value :: earlier =>
    Function.update (flags earlier) i ((flags earlier i).insert name value)
  | .remove i name :: earlier => Function.update (flags earlier) i ((flags earlier i).erase name)
  | .merge i j :: earlier =>
    Function.update (flags earlier) i ((flags earlier i).merge (flags earlier j))
  | .collect i pairs :: earlier => Function.update (flags earlier) i (Table.ofList pairs)
  | .intern _ :: earlier => flags earlier

end FlagStep

/-- **Stores by number**, with the symbols that were handed out. -/
structure FlagStores (σ : Type) where
  symbols : σ
  store : ℕ → FlagStore

namespace FlagStores

variable {σ : Type} (I : Interner σ)

/-- The stores with one of them replaced. -/
def replace (w : FlagStores σ) (i : ℕ) (c : σ × FlagStore) : FlagStores σ :=
  ⟨c.1, Function.update w.store i c.2⟩

/-- **The stores after one more step.** -/
def step (w : FlagStores σ) : FlagStep → FlagStores σ
  | .set i name value => w.replace i ((w.store i).set I w.symbols name value)
  | .remove i name => w.replace i (w.symbols, ((w.store i).remove I w.symbols name).2)
  | .merge i j => w.replace i (w.symbols, (w.store i).merge (w.store j))
  | .collect i pairs => w.replace i (FlagStore.collect I w.symbols pairs)
  | .intern name => ⟨(I.intern w.symbols name).1, w.store⟩

/-- **The stores after a history**: at first they are empty. -/
def run (st : σ) : List FlagStep → FlagStores σ
  | [] => ⟨st, fun _ => .empty⟩
  | step :: earlier => (run st earlier).step I step

end FlagStores

/-! ### Stores that hold values -/

namespace FlagStore

variable {σ : Type} {I : Interner σ} {st : σ} {s other : FlagStore}
variable {values values' : String → Option FlagValue} {name : String} {key : ℕ}

/-- **A store that holds values under names**: it is in order, its symbols are those of names, and
look-up finds the values. -/
structure Holds (I : Interner σ) (st : σ) (s : FlagStore) (values : String → Option FlagValue) :
    Prop where
  sorted : s.Sorted
  named : ∀ p ∈ s.entries, ∃ name, I.symbol? st name = some p.1
  get?_eq : ∀ name, s.get? I st name = values name

/-- Only the values under each name matter. -/
theorem Holds.congr (h : Holds I st s values) (hvalues : ∀ name, values name = values' name) :
    Holds I st s values' :=
  ⟨h.sorted, h.named, fun name => (h.get?_eq name).trans (hvalues name)⟩

/-- The empty store holds no value. -/
theorem holds_empty : Holds I st .empty fun _ => none := by
  refine ⟨List.Pairwise.nil, by simp [empty], fun name => ?_⟩
  rw [get?, Option.bind_eq_none_iff]
  intro key _
  rw [Option.eq_none_iff_forall_ne_some]
  intro a ha
  simpa [empty] using (getSymbol?_eq_some_iff List.Pairwise.nil).1 ha

/-- Look-up by a name that has a symbol is look-up by the symbol. -/
theorem get?_of_symbol? (h : I.symbol? st name = some key) : s.get? I st name = s.getSymbol? key := by
  rw [get?, h, Option.bind_some]

/-- Nothing is found under a name without a symbol. -/
theorem get?_of_symbol?_eq_none (h : I.symbol? st name = none) : s.get? I st name = none := by
  rw [get?, h, Option.bind_none]

/-- **A name that comes up changes no store**: its symbol is none that is taken. -/
theorem Holds.intern (h : Holds I st s values) (name : String) :
    Holds I (I.intern st name).1 s values := by
  refine ⟨h.sorted, fun p hp => ?_, fun other => ?_⟩
  · obtain ⟨n, hn⟩ := h.named p hp
    exact ⟨n, I.symbol?_intern_of_some hn⟩
  rw [← h.get?_eq]
  cases hother : I.symbol? st other with
  | some key =>
    rw [get?_of_symbol? hother, get?_of_symbol? (I.symbol?_intern_of_some hother)]
  | none =>
    rw [get?_of_symbol?_eq_none hother, get?, Option.bind_eq_none_iff]
    intro key hkey
    rw [Option.eq_none_iff_forall_ne_some]
    intro a ha
    obtain ⟨n, hn⟩ := h.named _ ((getSymbol?_eq_some_iff h.sorted).1 ha)
    rw [I.symbol?_inj hkey (I.symbol?_intern_of_some hn), hn] at hother
    cases hother

/-- Symbols that differ are those of names that differ. -/
theorem symbol_eq_iff {n : String} {k : ℕ} (hkey : I.symbol? st name = some key)
    (hk : I.symbol? st n = some k) : key = k ↔ n = name := by
  constructor
  · rintro rfl
    exact I.symbol?_inj hk hkey
  · rintro rfl
    exact Option.some.inj (hkey.symm.trans hk)

/-- Setting a flag under the symbol of a name. -/
theorem Holds.setSymbol (h : Holds I st s values) (hkey : I.symbol? st name = some key)
    (value : FlagValue) :
    Holds I st (s.setSymbol key value) (Function.update values name (some value)) := by
  refine ⟨h.sorted.setSymbol key value, fun p hp => ?_, fun n => ?_⟩
  · rcases (mem_setSymbol h.sorted).1 hp with rfl | ⟨hp, -⟩
    · exact ⟨name, hkey⟩
    · exact h.named p hp
  rw [Function.update_apply, ← h.get?_eq]
  cases hn : I.symbol? st n with
  | some k =>
    rw [get?_of_symbol? hn, get?_of_symbol? hn, getSymbol?_setSymbol h.sorted]
    simp only [symbol_eq_iff hkey hn]
  | none =>
    have hne : n ≠ name := by
      rintro rfl
      simp [hkey] at hn
    rw [get?_of_symbol?_eq_none hn, get?_of_symbol?_eq_none hn, if_neg hne]

/-- **Setting a flag.** -/
theorem Holds.set (h : Holds I st s values) (name : String) (value : FlagValue) :
    Holds I (s.set I st name value).1 (s.set I st name value).2
      (Function.update values name (some value)) :=
  (h.intern name).setSymbol I.symbol?_intern_self value

/-- **Removing a flag.** -/
theorem Holds.remove (h : Holds I st s values) (name : String) :
    Holds I st (s.remove I st name).2 (Function.update values name none) := by
  cases hkey : I.symbol? st name with
  | none =>
    have hnone : values name = none := by rw [← h.get?_eq, get?_of_symbol?_eq_none hkey]
    rw [FlagStore.remove, hkey, ← hnone, Function.update_eq_self]
    exact h
  | some key =>
    rw [FlagStore.remove, hkey]
    refine ⟨h.sorted.removeSymbol key, fun p hp => ?_, fun n => ?_⟩
    · exact h.named p ((mem_removeSymbol h.sorted).1 hp).1
    rw [Function.update_apply, ← h.get?_eq]
    cases hn : I.symbol? st n with
    | some k =>
      rw [get?_of_symbol? hn, get?_of_symbol? hn, getSymbol?_removeSymbol h.sorted]
      simp only [symbol_eq_iff hkey hn]
    | none => rw [get?_of_symbol?_eq_none hn, get?_of_symbol?_eq_none hn, ite_self]

/-- What removing a flag gives is the value that it had. -/
theorem Holds.fst_remove (h : Holds I st s values) (name : String) :
    (s.remove I st name).1 = values name := by
  rw [← h.get?_eq, FlagStore.remove, get?]
  cases I.symbol? st name with
  | none => rfl
  | some key => exact fst_removeSymbol s key

/-- **Merging a store** into another one. -/
theorem Holds.merge (h : Holds I st s values) (hother : Holds I st other values') :
    Holds I st (s.merge other) fun name => (values' name).or (values name) := by
  refine ⟨h.sorted.merge other, fun p hp => ?_, fun n => ?_⟩
  · rcases (mem_foldl_setSymbol h.sorted hother.sorted).1 hp with hp | ⟨hp, -⟩
    · exact hother.named p hp
    · exact h.named p hp
  rw [← h.get?_eq, ← hother.get?_eq]
  cases hn : I.symbol? st n with
  | some k =>
    rw [get?_of_symbol? hn, get?_of_symbol? hn, get?_of_symbol? hn,
      getSymbol?_merge h.sorted hother.sorted]
  | none =>
    rw [get?_of_symbol?_eq_none hn, get?_of_symbol?_eq_none hn, get?_of_symbol?_eq_none hn,
      Option.or_none]

/-- Setting flags one after the other. -/
theorem Holds.foldl_set (h : Holds I st s values) (pairs : List (String × FlagValue)) :
    let c := pairs.foldl (fun c p => c.2.set I c.1 p.1 p.2) (st, s)
    Holds I c.1 c.2 fun name => (FlagStep.lastSetting? name pairs).or (values name) := by
  induction pairs generalizing st s values with
  | nil => exact h
  | cons p pairs ih =>
    refine (ih (h.set p.1 p.2)).congr fun n => ?_
    rw [FlagStep.lastSetting?, Option.or_assoc, Function.update_apply]
    rcases eq_or_ne n p.1 with rfl | hne
    · simp
    · simp [hne, hne.symm]

/-- **Collecting a store** from a list of settings. -/
theorem holds_collect (pairs : List (String × FlagValue)) :
    Holds I (collect I st pairs).1 (collect I st pairs).2 (FlagStep.lastSetting? · pairs) :=
  (holds_empty.foldl_set pairs).congr fun _ => Option.or_none

/-- Collecting a store changes no other one. -/
theorem Holds.collect (h : Holds I st s values) (pairs : List (String × FlagValue)) :
    Holds I (collect I st pairs).1 s values := by
  have hfold : ∀ c : σ × FlagStore, Holds I c.1 s values →
      Holds I (pairs.foldl (fun c p => c.2.set I c.1 p.1 p.2) c).1 s values := by
    induction pairs with
    | nil => exact fun c hc => hc
    | cons p pairs ih => exact fun c hc => ih _ (hc.intern p.1)
  exact hfold _ h

/-- The entry under the symbol of a name is its value. -/
theorem Holds.mem_entries_iff (h : Holds I st s values) (hkey : I.symbol? st name = some key)
    {a : FlagValue} : (key, a) ∈ s.entries ↔ values name = some a := by
  rw [← h.get?_eq, get?_of_symbol? hkey, getSymbol?_eq_some_iff h.sorted]

/-- A name with a value has a symbol. -/
theorem Holds.exists_symbol (h : Holds I st s values) {a : FlagValue} (ha : values name = some a) :
    ∃ key, I.symbol? st name = some key := by
  rw [← Option.isSome_iff_exists, Option.isSome_iff_ne_none]
  intro hnone
  rw [← h.get?_eq, get?_of_symbol?_eq_none hnone] at ha
  cases ha

/-- **Stores are equal exactly if they hold the same values.** -/
theorem Holds.eq_iff (h : Holds I st s values) (hother : Holds I st other values') :
    s = other ↔ ∀ name, values name = values' name := by
  constructor
  · rintro rfl name
    rw [← h.get?_eq, hother.get?_eq]
  · intro hvalues
    refine ext_getSymbol? h.sorted hother.sorted fun key => Option.ext fun a => ?_
    rw [getSymbol?_eq_some_iff h.sorted, getSymbol?_eq_some_iff hother.sorted]
    constructor
    · intro ha
      obtain ⟨name, hname⟩ := h.named _ ha
      rwa [hother.mem_entries_iff hname, ← hvalues, ← h.mem_entries_iff hname]
    · intro ha
      obtain ⟨name, hname⟩ := hother.named _ ha
      rwa [h.mem_entries_iff hname, hvalues, ← hother.mem_entries_iff hname]

/-- **The size of a store** is the number of names with a value. -/
theorem Holds.exists_size_eq (h : Holds I st s values) :
    ∃ names : Finset String, (∀ name, name ∈ names ↔ (values name).isSome = true) ∧
      s.size = names.card := by
  let nameOf (p : ℕ × FlagValue) : String := (I.name? st p.1).getD ""
  have hnameOf : ∀ {name p}, I.symbol? st name = some p.1 → nameOf p = name := by
    intro name p hname
    simp only [nameOf, I.name?_eq_some_iff.2 hname, Option.getD_some]
  refine ⟨(s.entries.map nameOf).toFinset, fun name => ?_, ?_⟩
  · rw [List.mem_toFinset, List.mem_map, Option.isSome_iff_exists]
    constructor
    · rintro ⟨p, hp, rfl⟩
      obtain ⟨name, hname⟩ := h.named p hp
      exact ⟨p.2, by rw [hnameOf hname, ← h.mem_entries_iff hname]; exact hp⟩
    · rintro ⟨a, ha⟩
      obtain ⟨key, hkey⟩ := h.exists_symbol ha
      exact ⟨_, (h.mem_entries_iff hkey).2 ha, hnameOf hkey⟩
  · have hnodup : (s.entries.map nameOf).Nodup := by
      refine List.pairwise_map.2 (h.sorted.imp_of_mem fun {p q} hp hq hlt heq => ?_)
      obtain ⟨n, hn⟩ := h.named p hp
      obtain ⟨m, hm⟩ := h.named q hq
      have hsame : m = n := by rw [← hnameOf hm, ← heq, hnameOf hn]
      exact Nat.ne_of_lt hlt ((symbol_eq_iff hn hm).2 hsame)
    rw [List.toFinset_card_of_nodup hnodup, List.length_map, size]

/-! ### Flags by name -/

/-- Settings made one by one win over the flags before them, and among them the last one for a name wins.
-/
theorem get?_foldl_insert_eq (pairs : List (String × FlagValue)) (flags : Flags) (name : String) :
    (pairs.foldl (fun t p => t.insert p.1 p.2) flags).get? name =
      (FlagStep.lastSetting? name pairs).or (flags.get? name) := by
  induction pairs generalizing flags with
  | nil => rfl
  | cons p pairs ih =>
    rw [List.foldl_cons, ih, Table.get?_insert, FlagStep.lastSetting?, Option.or_assoc]
    by_cases hname : p.1 = name <;> simp [hname]

/-- The flags of a list of settings. -/
theorem get?_ofList (pairs : List (String × FlagValue)) (name : String) :
    (Table.ofList pairs).get? name = FlagStep.lastSetting? name pairs :=
  (get?_foldl_insert_eq pairs Table.empty name).trans Option.or_none

/-- The last setting is one of the settings. -/
theorem mem_of_lastSetting? {pairs : List (String × FlagValue)} {a : FlagValue}
    (h : FlagStep.lastSetting? name pairs = some a) : (name, a) ∈ pairs := by
  induction pairs with
  | nil => cases h
  | cons p pairs ih =>
    rw [FlagStep.lastSetting?, Option.or_eq_some_iff, Option.ite_none_right_eq_some] at h
    rcases h with h | ⟨-, rfl, ha⟩
    · exact List.mem_cons_of_mem _ (ih h)
    · obtain rfl := Option.some.inj ha
      exact List.mem_cons_self

/-- A name that is set has a last setting. -/
theorem lastSetting?_ne_none {pairs : List (String × FlagValue)} {a : FlagValue}
    (h : (name, a) ∈ pairs) : FlagStep.lastSetting? name pairs ≠ none := by
  induction pairs with
  | nil => cases h
  | cons p pairs ih =>
    rw [FlagStep.lastSetting?, ne_eq, Option.or_eq_none_iff, not_and_or]
    rcases List.mem_cons.1 h with rfl | h
    · exact .inr (by simp)
    · exact .inl (ih h)

/-- The settings of a store by name. -/
theorem Holds.mem_settings_iff (h : Holds I st s values) {a : FlagValue} :
    (name, a) ∈ (s.entries.filterMap fun p => (I.name? st p.1).map fun name => (name, p.2)) ↔
      values name = some a := by
  rw [List.mem_filterMap]
  constructor
  · rintro ⟨p, hp, heq⟩
    obtain ⟨n, hn, heq⟩ := Option.map_eq_some_iff.1 heq
    obtain ⟨rfl, rfl⟩ := Prod.mk.inj heq
    exact (h.mem_entries_iff (I.name?_eq_some_iff.1 hn)).1 hp
  · intro ha
    obtain ⟨key, hkey⟩ := h.exists_symbol ha
    exact ⟨(key, a), (h.mem_entries_iff hkey).2 ha, by rw [I.name?_eq_some_iff.2 hkey]; rfl⟩

/-- **The flags of a store** have the values that it holds. -/
theorem Holds.get?_toFlags (h : Holds I st s values) (name : String) :
    (s.toFlags I st).get? name = values name := by
  rw [toFlags, get?_ofList]
  cases hlast : FlagStep.lastSetting? name _ with
  | some a => exact (h.mem_settings_iff.1 (mem_of_lastSetting? hlast)).symm
  | none =>
    refine (Option.eq_none_iff_forall_ne_some.2 fun a ha => ?_).symm
    exact lastSetting?_ne_none (h.mem_settings_iff.2 ha) hlast

end FlagStore

/-! ### Histories of stores -/

namespace FlagStores

open FlagStep

variable {σ : Type} (I : Interner σ) (st : σ)

variable {I} {s : FlagStore} {values : String → Option FlagValue}

/-- What stores hold once one of them is replaced. -/
theorem holds_replace {w : FlagStores σ} {i : ℕ} {c : σ × FlagStore}
    {held : ℕ → String → Option FlagValue} (hi : c.2.Holds I c.1 (held i))
    (hother : ∀ j, j ≠ i → (w.store j).Holds I c.1 (held j)) (j : ℕ) :
    ((w.replace i c).store j).Holds I (w.replace i c).symbols (held j) := by
  rcases eq_or_ne j i with rfl | hne
  · simpa [replace] using hi
  · simpa [replace, hne] using hother j hne

/-- **A step changes no store that it does not replace**: to the others it does no more than hand out
symbols. -/
theorem holds_of_step {w : FlagStores σ} (hs : s.Holds I w.symbols values) (a : FlagStep) :
    s.Holds I (w.step I a).symbols values := by
  cases a with
  | set i name value => exact hs.intern name
  | remove i name => exact hs
  | merge i j => exact hs
  | collect i pairs => exact hs.collect pairs
  | intern name => exact hs.intern name

/-- A store keeps what it holds while steps are taken on others. -/
theorem holds_of_run {st : σ} {h : List FlagStep} (hs : s.Holds I (run I st h).symbols values)
    (later : List FlagStep) : s.Holds I (run I st (later ++ h)).symbols values := by
  induction later with
  | nil => exact hs
  | cons a later ih => exact holds_of_step ih a

/-- **What stores hold after one more step**: it sets, removes or takes over values of one store. -/
theorem holds_step {w : FlagStores σ} {earlier : List FlagStep}
    (hw : ∀ i, (w.store i).Holds I w.symbols (value? earlier i)) (a : FlagStep) (i : ℕ) :
    ((w.step I a).store i).Holds I (w.step I a).symbols (value? (a :: earlier) i) := by
  have hkept : ∀ k, (w.store k).Holds I (w.step I a).symbols (value? earlier k) := fun k =>
    holds_of_step (hw k) a
  cases a with
  | set j name value =>
    refine holds_replace (((hw j).set name value).congr fun n => ?_)
      (fun k hk => (hkept k).congr fun n => ?_) i
    · simp [value?, Function.update_apply]
    · simp [value?, hk]
  | remove j name =>
    refine holds_replace (((hw j).remove name).congr fun n => ?_)
      (fun k hk => (hkept k).congr fun n => ?_) i
    · simp [value?, Function.update_apply]
    · simp [value?, hk]
  | merge j k =>
    refine holds_replace (((hw j).merge (hw k)).congr fun n => ?_)
      (fun l hl => (hkept l).congr fun n => ?_) i
    · simp [value?]
    · simp [value?, hl]
  | collect j pairs =>
    refine holds_replace ((FlagStore.holds_collect pairs).congr fun n => ?_)
      (fun k hk => (hkept k).congr fun n => ?_) i
    · simp [value?]
    · simp [value?, hk]
  | intern name => exact (hw i).intern name

variable (I)

/-- **Stores hold what was last written.** -/
theorem holds_run (h : List FlagStep) (i : ℕ) :
    ((run I st h).store i).Holds I (run I st h).symbols (value? h i) := by
  induction h generalizing i with
  | nil => exact FlagStore.holds_empty
  | cons a earlier ih => exact holds_step ih a i

/-- The flags that a history makes are what it last wrote. -/
theorem get?_flags (h : List FlagStep) (i : ℕ) (name : String) :
    (flags h i).get? name = value? h i name := by
  induction h generalizing i name with
  | nil => rfl
  | cons a earlier ih =>
    cases a with
    | set j n value =>
      rcases eq_or_ne i j with rfl | hne
      · simp [flags, value?, ih, eq_comm]
      · simp [flags, value?, ih, hne]
    | remove j n =>
      rcases eq_or_ne i j with rfl | hne
      · simp [flags, value?, ih, eq_comm]
      · simp [flags, value?, ih, hne]
    | merge j k =>
      rcases eq_or_ne i j with rfl | hne
      · simp [flags, value?, ih]
      · simp [flags, value?, ih, hne]
    | collect j pairs =>
      rcases eq_or_ne i j with rfl | hne
      · simp [flags, value?, FlagStore.get?_ofList]
      · simp [flags, value?, ih, hne]
    | intern n => exact ih i name

/-- **Stores are finite maps, whatever their history.** Each is by strictly increasing symbol; look-up
and removal give the value that was last written and not removed since, and its size is the number of
names with a value. It has the flags that the same steps make by name. A store that is merged into
another one counts where it has a name. Two stores are equal exactly if they hold the same values, where
numbers are the same if their bits are. -/
theorem run_finite_map (h : List FlagStep) :
    let w := run I st h
    ∀ i, (w.store i).entries.Pairwise (·.1 < ·.1) ∧
      (∀ name, (w.store i).get? I w.symbols name = value? h i name) ∧
      (∀ name, ((w.store i).remove I w.symbols name).1 = value? h i name) ∧
      (∃ names : Finset String, (∀ name, name ∈ names ↔ (value? h i name).isSome = true) ∧
        (w.store i).size = names.card) ∧
      (w.store i).toFlags I w.symbols = flags h i ∧
      ∀ j, (∀ name, ((w.store i).merge (w.store j)).get? I w.symbols name =
          ((w.store j).get? I w.symbols name).or ((w.store i).get? I w.symbols name)) ∧
        (w.store i = w.store j ↔ ∀ name, value? h i name = value? h j name) := by
  intro w i
  have hw : ∀ j, (w.store j).Holds I w.symbols (value? h j) := holds_run I st h
  refine ⟨(hw i).sorted, (hw i).get?_eq, (hw i).fst_remove, (hw i).exists_size_eq, ?_, fun j => ⟨?_, ?_⟩⟩
  · refine Table.ext_get? fun name => ?_
    rw [(hw i).get?_toFlags, get?_flags]
  · intro name
    rw [((hw i).merge (hw j)).get?_eq, (hw i).get?_eq, (hw j).get?_eq]
  · exact (hw i).eq_iff (hw j)

/-- Flags are set in two stores, which are merged; then one of them is removed. -/
example :
    let history : List FlagStep :=
      [.remove 0 "B", .merge 0 1, .set 1 "C" (.int 4), .set 1 "B" (.int 3), .set 0 "B" (.int 2),
        .set 0 "A" (.int 1)]
    ((run Lexicon.interner .empty history).store 0).entries = [(0, .int 1), (2, .int 4)] := by
  decide +kernel

end FlagStores

end ShaderWeave
