import ShaderWeave.Text.Basic

set_option autoImplicit false

/-!
# Tables

Flags, chunks and structs are kept under names. A **table** holds at most one value for each name
and lists its entries by strictly increasing name, so that two tables with the same look-ups are
equal.

## Main definitions

* `ShaderWeave.Table` — a table.
* `ShaderWeave.Table.get?`, `insert`, `erase`, `merge`, `ofList` — look-up and change.

## Main results

* `ShaderWeave.Table.get?_insert`, `ShaderWeave.Table.get?_erase`, `ShaderWeave.Table.get?_merge` —
  each operation through look-up.
* `ShaderWeave.Table.ext_get?` — tables with the same look-ups are equal.
-/

namespace ShaderWeave

/-! ### The order of names -/

namespace Text

/-- No name stands before itself. -/
theorem precedes_irrefl (s : Text) : precedes s s = false := by
  induction s with
  | nil => rfl
  | cons a s ih => simp [precedes, ih]

/-- The order of names is transitive. -/
theorem precedes_trans {s t u : Text} (h₁ : precedes s t = true) (h₂ : precedes t u = true) :
    precedes s u = true := by
  induction s generalizing t u with
  | nil =>
    cases t with
    | nil => simp [precedes] at h₁
    | cons b t => cases u <;> simp_all [precedes]
  | cons a s ih =>
    cases t with
    | nil => simp [precedes] at h₁
    | cons b t =>
      cases u with
      | nil => simp [precedes] at h₂
      | cons c u =>
        simp only [precedes, Bool.or_eq_true, decide_eq_true_eq, Bool.and_eq_true] at h₁ h₂ ⊢
        rcases h₁ with h₁ | ⟨rfl, h₁⟩ <;> rcases h₂ with h₂ | ⟨rfl, h₂⟩
        · exact .inl (Nat.lt_trans h₁ h₂)
        · exact .inl h₁
        · exact .inl h₂
        · exact .inr ⟨rfl, ih h₁ h₂⟩

/-- Of two different names one stands before the other. -/
theorem precedes_total {s t : Text} (h : precedes s t = false) (hne : s ≠ t) :
    precedes t s = true := by
  induction s generalizing t with
  | nil =>
    cases t with
    | nil => exact absurd rfl hne
    | cons b t => simp [precedes] at h
  | cons a s ih =>
    cases t with
    | nil => rfl
    | cons b t =>
      simp only [precedes, Bool.or_eq_false_iff, decide_eq_false_iff_not, Bool.and_eq_false_imp,
        decide_eq_true_eq, Bool.or_eq_true, Bool.and_eq_true] at h ⊢
      by_cases hab : a = b
      · subst hab
        exact .inr ⟨rfl, ih (h.2 rfl) fun he => hne (by rw [he])⟩
      · refine .inl (Nat.lt_of_le_of_ne (Nat.le_of_not_lt h.1) fun he => hab ?_)
        exact Char.ext (UInt32.toNat_inj.1 he.symm)

/-- The order of names is asymmetric. -/
theorem precedes_asymm {s t : Text} (h : precedes s t = true) : precedes t s = false := by
  by_cases ht : precedes t s = true
  · have := precedes_trans h ht
    simp [precedes_irrefl] at this
  · simpa using ht

end Text

/-- Whether a name comes before another one. -/
def nameBefore (a b : String) : Bool :=
  Text.precedes a.toList b.toList

/-! ### Tables -/

/-- **A table** of values under names, by increasing name. -/
structure Table (α : Type) where
  /-- The names with their values. -/
  entries : List (String × α)
  /-- Names increase strictly, so none occurs twice. -/
  sorted : entries.Pairwise fun p q => nameBefore p.1 q.1 = true

namespace Table

variable {α : Type}

/-- The value of a name in a list of entries. -/
def find? (key : String) : List (String × α) → Option α
  | [] => none
  | (k, a) :: es => if k = key then some a else find? key es

/-- Entries with the value of one name set. -/
def put (key : String) (value : α) : List (String × α) → List (String × α)
  | [] => [(key, value)]
  | (k, a) :: es =>
    if key = k then (key, value) :: es
    else if nameBefore key k then (key, value) :: (k, a) :: es
    else (k, a) :: put key value es

/-- An entry behind a `put` is the one that was put or one there was before. -/
theorem mem_put {key : String} {value : α} {es : List (String × α)} {p : String × α}
    (h : p ∈ put key value es) : p = (key, value) ∨ p ∈ es := by
  fun_induction put key value es with
  | case1 => simpa using h
  | case2 => simp at h ⊢; rcases h with h | h <;> simp [h]
  | case3 => simpa using h
  | case4 k a es _ _ ih =>
    rcases List.mem_cons.1 h with h | h
    · simp [h]
    · rcases ih h with h | h <;> simp [h]

/-- **Entries stay in order** when one is put among them. -/
theorem sorted_put (key : String) (value : α) {es : List (String × α)}
    (h : es.Pairwise fun p q => nameBefore p.1 q.1 = true) :
    (put key value es).Pairwise fun p q => nameBefore p.1 q.1 = true := by
  fun_induction put key value es with
  | case1 => simp
  | case2 => simpa using h
  | case3 k a es _ hb =>
    refine List.pairwise_cons.2 ⟨fun p hp => ?_, h⟩
    rcases List.mem_cons.1 hp with rfl | hp
    · exact hb
    · exact Text.precedes_trans hb ((List.pairwise_cons.1 h).1 p hp)
  | case4 k a es hne hb ih =>
    rw [List.pairwise_cons] at h ⊢
    refine ⟨fun p hp => ?_, ih h.2⟩
    rcases mem_put hp with rfl | hp
    · refine Text.precedes_total (by simpa [nameBefore] using hb) fun he => hne ?_
      exact String.toList_injective he
    · exact h.1 p hp

/-- The table without entries. -/
def empty : Table α :=
  ⟨[], List.Pairwise.nil⟩

/-- **Look-up**: the value of a name. -/
def get? (t : Table α) (key : String) : Option α :=
  find? key t.entries

/-- Whether a name has a value. -/
def contains (t : Table α) (key : String) : Bool :=
  (t.get? key).isSome

/-- **Setting a value**: the last one set under a name counts. -/
def insert (t : Table α) (key : String) (value : α) : Table α :=
  ⟨put key value t.entries, sorted_put key value t.sorted⟩

/-- **Removing a name** with its value. -/
def erase (t : Table α) (key : String) : Table α :=
  ⟨t.entries.filter (·.1 ≠ key), t.sorted.filter _⟩

/-- A table with the values of another one set over its own. -/
def merge (t other : Table α) : Table α :=
  other.entries.foldl (fun t p => t.insert p.1 p.2) t

/-- The table of a list of settings, of which the last one for a name counts. -/
def ofList (es : List (String × α)) : Table α :=
  es.foldl (fun t p => t.insert p.1 p.2) empty

/-- The names with a value, in increasing order. -/
def keys (t : Table α) : List String :=
  t.entries.map Prod.fst

/-- The values, in the order of their names. -/
def values (t : Table α) : List α :=
  t.entries.map Prod.snd

/-- The number of names with a value. -/
def size (t : Table α) : Nat :=
  t.entries.length

/-! ### Look-up after a change -/

/-- **What was put is found** under its key, and under every other key what was found before. -/
theorem find?_put (key k : String) (value : α) (es : List (String × α)) :
    find? k (put key value es) = if key = k then some value else find? k es := by
  fun_induction put key value es with
  | case1 => simp [find?]
  | case2 a es => by_cases h : key = k <;> simp [find?, h]
  | case3 k' a es _ _ => by_cases h : key = k <;> simp [find?, h]
  | case4 k' a es hne _ ih =>
    by_cases h : k' = k
    · subst h
      simp [find?, hne]
    · simp [find?, h, ih]

/-- Once the entries of a key are left out, nothing is found under it and all else is found as before. -/
theorem find?_filter (key k : String) (es : List (String × α)) :
    find? k (es.filter (·.1 ≠ key)) = if key = k then none else find? k es := by
  induction es with
  | nil => simp [find?]
  | cons p es ih =>
    obtain ⟨k', a⟩ := p
    by_cases h : k' = key <;> by_cases hk : key = k <;> simp_all [find?]

/-- The empty table has no value. -/
@[simp] theorem get?_empty (k : String) : (empty : Table α).get? k = none := rfl

/-- A value that was inserted is found under its key, and all else as before. -/
@[simp] theorem get?_insert (t : Table α) (key k : String) (value : α) :
    (t.insert key value).get? k = if key = k then some value else t.get? k :=
  find?_put key k value t.entries

/-- An erased key has no value, and every other key the value it had. -/
@[simp] theorem get?_erase (t : Table α) (key k : String) :
    (t.erase key).get? k = if key = k then none else t.get? k :=
  find?_filter key k t.entries

/-- Nothing is found under a key that no entry has. -/
theorem find?_eq_none {k : String} {es : List (String × α)} (h : ∀ p ∈ es, p.1 ≠ k) :
    find? k es = none := by
  induction es with
  | nil => rfl
  | cons p es ih =>
    rw [find?, if_neg (h p List.mem_cons_self)]
    exact ih fun q hq => h q (List.mem_cons_of_mem _ hq)

/-- Every entry of a sorted list is found under its key, since no key comes twice. -/
theorem find?_of_mem {k : String} {a : α} {es : List (String × α)}
    (hs : es.Pairwise fun p q => nameBefore p.1 q.1 = true) (h : (k, a) ∈ es) :
    find? k es = some a := by
  induction es with
  | nil => simp at h
  | cons p es ih =>
    rw [List.pairwise_cons] at hs
    rcases List.mem_cons.1 h with rfl | h
    · simp [find?]
    · have hp := hs.1 _ h
      have : p.1 ≠ k := fun he => by simp [nameBefore, he, Text.precedes_irrefl] at hp
      rw [find?, if_neg this]
      exact ih hs.2 h

/-- What is found stands among the entries. -/
theorem mem_of_find? {k : String} {a : α} {es : List (String × α)} (h : find? k es = some a) :
    (k, a) ∈ es := by
  induction es with
  | nil => simp [find?] at h
  | cons p es ih =>
    obtain ⟨k', a'⟩ := p
    by_cases hk : k' = k
    · simp_all [find?]
    · rw [find?, if_neg hk] at h
      exact List.mem_cons_of_mem _ (ih h)

/-- An entry is what look-up finds. -/
theorem mem_entries {t : Table α} {k : String} {a : α} :
    (k, a) ∈ t.entries ↔ t.get? k = some a :=
  ⟨find?_of_mem t.sorted, mem_of_find?⟩

/-- **Tables with the same look-ups are equal.** -/
theorem ext_get? {t u : Table α} (h : ∀ k, t.get? k = u.get? k) : t = u := by
  obtain ⟨es, hes⟩ := t
  obtain ⟨fs, hfs⟩ := u
  have key : ∀ {es fs : List (String × α)},
      (es.Pairwise fun p q => nameBefore p.1 q.1 = true) →
      (fs.Pairwise fun p q => nameBefore p.1 q.1 = true) →
      (∀ p, p ∈ es ↔ p ∈ fs) → es = fs := by
    intro es fs he hf hm
    refine List.Perm.eq_of_pairwise ?_ he hf ?_
    · intro p q _ _ hpq hqp
      rw [nameBefore, Text.precedes_asymm hpq] at hqp
      simp at hqp
    · refine (List.perm_ext_iff_of_nodup ?_ ?_).2 hm
      · refine he.imp fun hpq heq => ?_
        simp [heq, nameBefore, Text.precedes_irrefl] at hpq
      · refine hf.imp fun hpq heq => ?_
        simp [heq, nameBefore, Text.precedes_irrefl] at hpq
  have : es = fs := key hes hfs fun p => by
    have hp := h p.1
    simp only [get?] at hp
    constructor
    · intro hm
      exact mem_of_find? (hp ▸ find?_of_mem hes hm)
    · intro hm
      exact mem_of_find? (hp ▸ find?_of_mem hfs hm)
  subst this
  rfl

/-- Sorted entries inserted one by one are found in place of what the table had. -/
theorem get?_foldl_insert (t : Table α) (es : List (String × α)) (k : String)
    (hs : es.Pairwise fun p q => nameBefore p.1 q.1 = true) :
    (es.foldl (fun t p => t.insert p.1 p.2) t).get? k = (find? k es).or (t.get? k) := by
  induction es generalizing t with
  | nil => simp [find?]
  | cons p es ih =>
    obtain ⟨k', a⟩ := p
    rw [List.pairwise_cons] at hs
    rw [List.foldl_cons, ih _ hs.2, get?_insert, find?]
    by_cases hk : k' = k
    · subst hk
      have : find? k' es = none := find?_eq_none fun q hq he => by
        have := hs.1 q hq
        simp [nameBefore, he, Text.precedes_irrefl] at this
      simp [this]
    · simp [hk]

/-- After a merge a name has the value of the other table, if it has one there. -/
@[simp] theorem get?_merge (t other : Table α) (k : String) :
    (t.merge other).get? k = (other.get? k).or (t.get? k) :=
  get?_foldl_insert t other.entries k other.sorted

end Table

end ShaderWeave
