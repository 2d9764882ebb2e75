import Mathlib.Data.List.Basic
import ShaderWeave.Flag.Store

set_option autoImplicit false

/-!
# Binary search in stores of flags

Among entries by strictly increasing symbol, binary search finds a symbol where it stands, and where it
is missing it finds the place between the lower and the greater ones. So a store stays in order when
flags are set, removed and merged, and looks up what was set.

## Main definitions

* `ShaderWeave.FlagStore.Sorted` — a store by strictly increasing symbol.

## Main results

* `ShaderWeave.FlagStore.search_cases` — what the search finds.
* `ShaderWeave.FlagStore.getSymbol?_setSymbol`, `ShaderWeave.FlagStore.getSymbol?_removeSymbol`,
  `ShaderWeave.FlagStore.getSymbol?_merge` — each operation through look-up.
* `ShaderWeave.FlagStore.ext_getSymbol?` — stores with the same look-ups are equal.
-/

namespace ShaderWeave

namespace FlagStore

/-- Entries by strictly increasing symbol. -/
def Increasing (es : List (ℕ × FlagValue)) : Prop :=
  es.Pairwise (·.1 < ·.1)

/-- **A store by strictly increasing symbol**, in which no symbol occurs twice. -/
def Sorted (s : FlagStore) : Prop :=
  Increasing s.entries

/-- **Entries cut at a symbol**: those with lower symbols and those with greater ones. -/
structure Around (key : ℕ) (xs ys : List (ℕ × FlagValue)) : Prop where
  lower : ∀ p ∈ xs, p.1 < key
  greater : ∀ p ∈ ys, key < p.1

variable {es xs ys : List (ℕ × FlagValue)} {key k : ℕ} {value a : FlagValue} {p : ℕ × FlagValue}
variable {s other : FlagStore}

/-- The entries before and behind a symbol in a store are those below and above it. -/
theorem Increasing.around (h : Increasing (xs ++ (key, a) :: ys)) : Around key xs ys := by
  obtain ⟨-, hys, hxs⟩ := List.pairwise_append.1 h
  exact ⟨fun p hp => hxs p hp _ List.mem_cons_self, (List.pairwise_cons.1 hys).1⟩

/-- A symbol is on neither side of a cut at it. -/
theorem Around.notMem (h : Around key xs ys) (hp : p.1 = key) : p ∉ xs ∧ p ∉ ys :=
  ⟨fun hxs => Nat.ne_of_lt (h.lower p hxs) hp, fun hys => Nat.ne_of_gt (h.greater p hys) hp⟩

/-! ### Binary search -/

/-- **The search ends up at the last symbol that is not greater**, if there is one: those in front of
its place are lower, and those behind it are greater.

**Proof sketch.** Along the search. What is left out on the left is lower than the symbol in the middle,
which is not greater than the one that is looked for; what is left out on the right is not lower than
the symbol in the middle, which is greater. -/
theorem narrow_spec (h : Increasing es) (key : ℕ) {base size : ℕ} (hle : base + size ≤ es.length)
    (hsize : 0 < size) (hlower : ∀ i (hi : i < es.length), i < base → es[i].1 < key)
    (hgreater : ∀ i (hi : i < es.length), base + size ≤ i → key < es[i].1) :
    narrow es key base size hle < es.length ∧
      (∀ i (hi : i < es.length), i < narrow es key base size hle → es[i].1 < key) ∧
      ∀ i (hi : i < es.length), narrow es key base size hle < i → key < es[i].1 := by
  have hmono : ∀ i j (hi : i < es.length) (hj : j < es.length), i < j → es[i].1 < es[j].1 :=
    List.pairwise_iff_getElem.1 h
  fun_induction narrow es key base size hle with
  | case1 base size hle hmany hmid hbeyond ih =>
    refine ih (by omega) hlower fun i hi hbase => ?_
    rcases eq_or_ne i (base + size / 2) with rfl | hne
    · exact hbeyond
    · exact Nat.lt_trans hbeyond (hmono _ i hmid hi (by omega))
  | case2 base size hle hmany hmid hbeyond ih =>
    refine ih (by omega) (fun i hi hbase => ?_) fun i hi hbase => hgreater i hi (by omega)
    exact Nat.lt_of_lt_of_le (hmono i _ hi hmid hbase) (Nat.le_of_not_lt hbeyond)
  | case3 base size hle hone =>
    exact ⟨by omega, hlower, fun i hi hbase => hgreater i hi (by omega)⟩

/-- Entries are cut where lower symbols end and greater ones begin. -/
theorem around_take_drop {i : ℕ} (hlower : ∀ j (hj : j < es.length), j < i → es[j].1 < key)
    (hgreater : ∀ j (hj : j < es.length), i ≤ j → key < es[j].1) :
    Around key (es.take i) (es.drop i) := by
  constructor
  · intro p hp
    obtain ⟨j, hj, rfl⟩ := List.mem_take_iff_getElem.1 hp
    exact hlower j (by omega) (by omega)
  · intro p hp
    obtain ⟨j, hj, rfl⟩ := List.mem_drop_iff_getElem.1 hp
    exact hgreater _ (by omega) (by omega)

/-- **What the search finds**: a symbol where it stands, or its place between the lower and the greater
ones. -/
theorem search_cases (h : Increasing es) (key : ℕ) :
    (∃ xs a ys, es = xs ++ (key, a) :: ys ∧ search es key = .found xs.length) ∨
      ∃ xs ys, es = xs ++ ys ∧ Around key xs ys ∧ search es key = .missing xs.length := by
  rcases Nat.eq_zero_or_pos es.length with hlength | hlength
  · obtain rfl := List.length_eq_zero_iff.1 hlength
    exact .inr ⟨[], [], rfl, ⟨by simp, by simp⟩, by simp [search, narrow]⟩
  have hle : 0 + es.length ≤ es.length := by omega
  obtain ⟨hi, hlower, hgreater⟩ := narrow_spec h key hle hlength (by omega) (by omega)
  -- `i` is the place at which the search ends up
  obtain ⟨i, hnarrow⟩ : ∃ i, narrow es key 0 es.length hle = i := ⟨_, rfl⟩
  rw [hnarrow] at hi hlower hgreater
  have hsearch : search es key = if es[i].1 = key then .found i
      else .missing (if es[i].1 < key then i + 1 else i) := by
    simp only [search, hnarrow, List.getElem?_eq_getElem hi]
  rcases Nat.lt_trichotomy es[i].1 key with hlt | heq | hgt
  · refine .inr ⟨es.take (i + 1), es.drop (i + 1), (List.take_append_drop _ _).symm, ?_, ?_⟩
    · refine around_take_drop (fun j hj hji => ?_) fun j hj hij => hgreater j hj hij
      rcases Nat.lt_or_eq_of_le (Nat.le_of_lt_succ hji) with hji | rfl
      · exact hlower j hj hji
      · exact hlt
    · rw [hsearch, if_neg (by omega), if_pos hlt, List.length_take, Nat.min_eq_left hi]
  · refine .inl ⟨es.take i, es[i].2, es.drop (i + 1), ?_, ?_⟩
    · rw [← heq, List.getElem_cons_drop, List.take_append_drop]
    · rw [hsearch, if_pos heq, List.length_take, Nat.min_eq_left (by omega)]
  · refine .inr ⟨es.take i, es.drop i, (List.take_append_drop _ _).symm, ?_, ?_⟩
    · refine around_take_drop hlower fun j hj hij => ?_
      rcases Nat.lt_or_eq_of_le hij with hij | rfl
      · exact hgreater j hj hij
      · exact hgt
    · rw [hsearch, if_neg (by omega), if_neg (by omega), List.length_take,
        Nat.min_eq_left (by omega)]

/-! ### Entries after a change -/

/-- An entry inserted at the end of a first part stands between the two parts. -/
theorem insertIdx_length_append (xs ys : List (ℕ × FlagValue)) (p : ℕ × FlagValue) :
    (xs ++ ys).insertIdx xs.length p = xs ++ p :: ys := by
  induction xs with
  | nil => rfl
  | cons x xs ih => simp [ih]

/-- Where a flag is set: between the flags with lower symbols and those with greater ones. -/
theorem exists_entries_setSymbol (h : s.Sorted) (key : ℕ) (value : FlagValue) :
    ∃ xs ys, (s.setSymbol key value).entries = xs ++ (key, value) :: ys ∧ Around key xs ys ∧
      (s.entries = xs ++ ys ∨ ∃ a, s.entries = xs ++ (key, a) :: ys) := by
  rcases search_cases h key with ⟨xs, a, ys, hs, hsearch⟩ | ⟨xs, ys, hs, haround, hsearch⟩
  · rw [Sorted, hs] at h
    refine ⟨xs, ys, ?_, h.around, .inr ⟨a, hs⟩⟩
    rw [setSymbol, hsearch, hs]
    simp [List.modify_eq_take_cons_drop]
  · refine ⟨xs, ys, ?_, haround, .inl hs⟩
    rw [setSymbol, hsearch, hs]
    exact insertIdx_length_append xs ys _

/-- What removing a flag gives: its value, and the other flags. -/
theorem removeSymbol_cases (h : s.Sorted) (key : ℕ) :
    (∃ xs a ys, s.entries = xs ++ (key, a) :: ys ∧ s.removeSymbol key = (some a, ⟨xs ++ ys⟩)) ∨
      (∀ p ∈ s.entries, p.1 ≠ key) ∧ s.removeSymbol key = (none, s) := by
  rcases search_cases h key with ⟨xs, a, ys, hs, hsearch⟩ | ⟨xs, ys, hs, haround, hsearch⟩
  · refine .inl ⟨xs, a, ys, hs, ?_⟩
    rw [removeSymbol, hsearch, hs]
    simp [List.eraseIdx_append_of_length_le]
  · refine .inr ⟨fun p hp => ?_, by rw [removeSymbol, hsearch]⟩
    intro hkey
    simp [hs, haround.notMem hkey] at hp

/-- **A store stays in order when a flag is set.** -/
theorem Sorted.setSymbol (h : s.Sorted) (key : ℕ) (value : FlagValue) :
    (s.setSymbol key value).Sorted := by
  obtain ⟨xs, ys, hset, haround, hs⟩ := exists_entries_setSymbol h key value
  have hsub : (xs ++ ys).Sublist s.entries := by
    rcases hs with hs | ⟨a, hs⟩
    · rw [hs]
    · rw [hs]
      exact (List.sublist_cons_self _ _).append_left xs
  obtain ⟨hxs, hys, hlt⟩ := List.pairwise_append.1 (h.sublist hsub)
  rw [Sorted, hset]
  refine List.pairwise_append.2 ⟨hxs, List.pairwise_cons.2 ⟨haround.greater, hys⟩, ?_⟩
  intro p hp q hq
  rcases List.mem_cons.1 hq with rfl | hq
  · exact haround.lower p hp
  · exact hlt p hp q hq

/-- **A store stays in order when a flag is removed.** -/
theorem Sorted.removeSymbol (h : s.Sorted) (key : ℕ) : (s.removeSymbol key).2.Sorted := by
  rcases removeSymbol_cases h key with ⟨xs, a, ys, hs, hremove⟩ | ⟨-, hremove⟩
  · rw [hremove]
    rw [Sorted, hs] at h
    exact h.sublist ((List.sublist_cons_self _ _).append_left xs)
  · rwa [hremove]

/-- The entries once a flag is set. -/
theorem mem_setSymbol (h : s.Sorted) : p ∈ (s.setSymbol key value).entries ↔
    p = (key, value) ∨ p ∈ s.entries ∧ p.1 ≠ key := by
  obtain ⟨xs, ys, hset, haround, hs⟩ := exists_entries_setSymbol h key value
  have hother : p.1 ≠ key → (p ∈ s.entries ↔ p ∈ xs ∨ p ∈ ys) := by
    intro hne
    rcases hs with hs | ⟨a, hs⟩
    · rw [hs, List.mem_append]
    · have hp : p ≠ (key, a) := fun hp => hne (by rw [hp])
      simp [hs, hp]
  by_cases hkey : p.1 = key
  · simp [hset, hkey, haround.notMem hkey]
  · have hp : p ≠ (key, value) := fun hp => hkey (by rw [hp])
    simp [hset, hkey, hp, hother hkey]

/-- The entries once a flag is removed. -/
theorem mem_removeSymbol (h : s.Sorted) : p ∈ (s.removeSymbol key).2.entries ↔
    p ∈ s.entries ∧ p.1 ≠ key := by
  rcases removeSymbol_cases h key with ⟨xs, a, ys, hs, hremove⟩ | ⟨hnone, hremove⟩
  · rw [Sorted, hs] at h
    rw [hremove, hs]
    by_cases hkey : p.1 = key
    · simp [hkey, h.around.notMem hkey]
    · have hp : p ≠ (key, a) := fun hp => hkey (by rw [hp])
      simp [hkey, hp]
  · rw [hremove]
    exact ⟨fun hp => ⟨hp, hnone p hp⟩, And.left⟩

/-! ### Look-up -/

/-- **Look-up finds the entries.** -/
theorem getSymbol?_eq_some_iff (h : s.Sorted) :
    s.getSymbol? key = some a ↔ (key, a) ∈ s.entries := by
  rcases search_cases h key with ⟨xs, b, ys, hs, hsearch⟩ | ⟨xs, ys, hs, haround, hsearch⟩
  · rw [Sorted, hs] at h
    obtain ⟨hxs, hys⟩ := h.around.notMem (p := (key, a)) rfl
    rw [getSymbol?, hsearch, hs]
    simp [hxs, hys, eq_comm]
  · obtain ⟨hxs, hys⟩ := haround.notMem (p := (key, a)) rfl
    rw [getSymbol?, hsearch, hs]
    simp [hxs, hys]

/-- Look-up once a flag is set. -/
theorem getSymbol?_setSymbol (h : s.Sorted) (key k : ℕ) (value : FlagValue) :
    (s.setSymbol key value).getSymbol? k = if key = k then some value else s.getSymbol? k := by
  refine Option.ext fun a => ?_
  rw [getSymbol?_eq_some_iff (h.setSymbol key value), mem_setSymbol h]
  by_cases hk : key = k
  · subst hk
    simp [eq_comm]
  · simp [hk, Ne.symm hk, getSymbol?_eq_some_iff h]

/-- Look-up once a flag is removed. -/
theorem getSymbol?_removeSymbol (h : s.Sorted) (key k : ℕ) :
    (s.removeSymbol key).2.getSymbol? k = if key = k then none else s.getSymbol? k := by
  refine Option.ext fun a => ?_
  rw [getSymbol?_eq_some_iff (h.removeSymbol key), mem_removeSymbol h]
  by_cases hk : key = k
  · subst hk
    simp
  · simp [hk, Ne.symm hk, getSymbol?_eq_some_iff h]

/-- The value of a flag that is removed is the one that look-up finds. -/
theorem fst_removeSymbol (s : FlagStore) (key : ℕ) : (s.removeSymbol key).1 = s.getSymbol? key := by
  rw [removeSymbol, getSymbol?]
  cases search s.entries key <;> rfl

/-- **Stores with the same look-ups are equal.** -/
theorem ext_getSymbol? (hs : s.Sorted) (hother : other.Sorted)
    (h : ∀ key, s.getSymbol? key = other.getSymbol? key) : s = other := by
  have hnodup : ∀ {es : List (ℕ × FlagValue)}, Increasing es → es.Nodup := fun hes =>
    hes.imp fun hlt heq => by simp [heq] at hlt
  have hperm : s.entries.Perm other.entries :=
    (List.perm_ext_iff_of_nodup (hnodup hs) (hnodup hother)).2 fun p => by
      rw [← getSymbol?_eq_some_iff hs, ← getSymbol?_eq_some_iff hother, h]
  have hentries : s.entries = other.entries :=
    hperm.eq_of_pairwise (fun p q _ _ hpq hqp => absurd hpq (Nat.lt_asymm hqp)) hs hother
  cases s
  cases other
  exact congrArg _ hentries

/-! ### Merging -/

/-- Setting flags one after the other keeps a store in order. -/
theorem Sorted.foldl_setSymbol (h : s.Sorted) (es : List (ℕ × FlagValue)) :
    (es.foldl (fun s p => s.setSymbol p.1 p.2) s).Sorted := by
  induction es generalizing s with
  | nil => exact h
  | cons p es ih => exact ih (h.setSymbol p.1 p.2)

/-- **A store stays in order when another one is merged into it.** -/
theorem Sorted.merge (h : s.Sorted) (other : FlagStore) : (s.merge other).Sorted :=
  h.foldl_setSymbol other.entries

/-- The entries once flags are set, none of which has the symbol of another one. -/
theorem mem_foldl_setSymbol (h : s.Sorted) (hes : Increasing es) :
    p ∈ (es.foldl (fun s p => s.setSymbol p.1 p.2) s).entries ↔
      p ∈ es ∨ p ∈ s.entries ∧ ∀ q ∈ es, p.1 ≠ q.1 := by
  induction es generalizing s with
  | nil => simp
  | cons q es ih =>
    obtain ⟨hq, hes'⟩ := List.pairwise_cons.1 hes
    rw [List.foldl_cons, ih (h.setSymbol q.1 q.2) hes', mem_setSymbol h]
    constructor
    · rintro (hp | ⟨rfl | ⟨hp, hne⟩, hnone⟩)
      · exact .inl (List.mem_cons_of_mem _ hp)
      · exact .inl List.mem_cons_self
      · exact .inr ⟨hp, List.forall_mem_cons.2 ⟨hne, hnone⟩⟩
    · rintro (hp | ⟨hp, hnone⟩)
      · rcases List.mem_cons.1 hp with rfl | hp
        · exact .inr ⟨.inl rfl, fun r hr => Nat.ne_of_lt (hq r hr)⟩
        · exact .inl hp
      · obtain ⟨hne, hnone⟩ := List.forall_mem_cons.1 hnone
        exact .inr ⟨.inr ⟨hp, hne⟩, hnone⟩

/-- **Look-up once a store is merged in**: what it has counts. -/
theorem getSymbol?_merge (h : s.Sorted) (hother : other.Sorted) (k : ℕ) :
    (s.merge other).getSymbol? k = (other.getSymbol? k).or (s.getSymbol? k) := by
  refine Option.ext fun a => ?_
  rw [getSymbol?_eq_some_iff (h.merge other), merge, mem_foldl_setSymbol h hother, Option.or_eq_some_iff,
    getSymbol?_eq_some_iff hother, getSymbol?_eq_some_iff h]
  have hnone : other.getSymbol? k = none ↔ ∀ q ∈ other.entries, k ≠ q.1 := by
    rw [Option.eq_none_iff_forall_ne_some]
    constructor
    · rintro hno ⟨key, b⟩ hq rfl
      exact hno b ((getSymbol?_eq_some_iff hother).2 hq)
    · exact fun hno b hb => hno _ ((getSymbol?_eq_some_iff hother).1 hb) rfl
  rw [hnone, and_comm]

end FlagStore

end ShaderWeave
