import Mathlib.Data.List.Nodup
import ShaderWeave.Proofs.Chunk.Roles

set_option autoImplicit false

/-!
# The arrangement of chunks

Arranging puts the chunks whose rule is about no other chunk in order first, and then places the others
one after the other. Each step puts one chunk somewhere into the sequence and leaves what is there in
order. So nothing is lost, the chunks of the first kind keep their order, and a chunk that was placed
beside another one stays beside it, but for chunks that are placed between them later.

## Main definitions

* `ShaderWeave.OrderRule.beside` — the rule about another chunk.
* `ShaderWeave.Chunk.IsInsertion` — a sequence with one more chunk in it.
* `ShaderWeave.Chunk.InFrontOf` — a chunk in front of another one, with given chunks in between.

## Main results

* `ShaderWeave.Chunk.isInsertion_place` — placing a chunk puts it into the sequence.
* `ShaderWeave.Chunk.arrange_perm_anchored` — chunks are arranged without loss, and those whose rule is
  about no other chunk stand in the order of their classes.
* `ShaderWeave.Chunk.arrange_beside` — a chunk stands where its rule about another one asks, if that
  one is placed ahead of it, and otherwise behind all that is placed ahead of it.
-/

namespace ShaderWeave

/-- **The rule about another chunk**: a place in front of it, or behind it. -/
def OrderRule.beside : (behind : Bool) → (target : String) → OrderRule
  | false, target => .before target
  | true, target => .after target

namespace Chunk

variable {stage : Stage} {a b c : Chunk} {l l' : List Chunk} {P : Chunk → Prop}

/-- The chunks with a rule about another chunk. -/
theorem isRelative_iff : isRelative stage c = true ↔
    ∃ behind target, c.orderRule stage = some (.beside behind target) := by
  rw [isRelative]
  rcases c.orderRule stage with _ | rule
  · simp
  · cases rule with
    | first => simp [OrderRule.target?, OrderRule.beside]
    | last => simp [OrderRule.target?, OrderRule.beside]
    | before target => simp [OrderRule.target?, OrderRule.beside]
    | after target => simp [OrderRule.target?, OrderRule.beside]

/-! ### One chunk more -/

/-- **A sequence with one more chunk in it.** -/
def IsInsertion (c : Chunk) (l l' : List Chunk) : Prop :=
  ∃ front back, l = front ++ back ∧ l' = front ++ c :: back

/-- A sequence with one more chunk in it is a permutation of the chunk and the sequence. -/
theorem IsInsertion.perm (h : IsInsertion c l l') : l'.Perm (c :: l) := by
  obtain ⟨front, back, rfl, rfl⟩ := h
  exact List.perm_middle

/-- A chunk that a filter drops leaves the others as they are. -/
theorem IsInsertion.filter_eq {p : Chunk → Bool} (h : IsInsertion c l l') (hc : p c = false) :
    l'.filter p = l.filter p := by
  obtain ⟨front, back, rfl, rfl⟩ := h
  simp [hc]

/-- **Beside another chunk** there is room if a chunk has its name. -/
theorem insertBeside?_eq_none_iff {behind : Bool} {target : String} :
    insertBeside? behind target c l = none ↔ ∀ d ∈ l, d.name ≠ target := by
  induction l with
  | nil => simp [insertBeside?]
  | cons d l ih => by_cases h : d.name = target <;> simp [insertBeside?, h, ih]

/-- **A chunk beside the first one of a name.** -/
theorem exists_of_insertBeside? {behind : Bool} {target : String}
    (h : insertBeside? behind target c l = some l') :
    ∃ front d back, l = front ++ d :: back ∧ d.name = target ∧
      l' = front ++ (if behind then [d, c] else [c, d]) ++ back := by
  induction l generalizing l' with
  | nil => cases h
  | cons d l ih =>
    rw [insertBeside?] at h
    split at h
    · rename_i hd
      refine ⟨[], d, l, rfl, hd, ?_⟩
      cases behind <;> exact (Option.some.inj h).symm
    · obtain ⟨m, hm, rfl⟩ := Option.map_eq_some_iff.1 h
      obtain ⟨front, e, back, rfl, he, rfl⟩ := ih hm
      exact ⟨d :: front, e, back, rfl, he, by simp⟩

/-- A chunk with a rule about another one is placed beside it, or at the end. -/
theorem value_place_of_beside {behind : Bool} {target : String}
    (h : c.orderRule stage = some (.beside behind target)) (l : List Chunk) :
    (place stage l c).value = (insertBeside? behind target c l).getD (l ++ [c]) := by
  cases behind with
  | false => exact value_place_beside.1 h
  | true => exact value_place_beside.2 h

/-- **Placing a chunk puts it into the sequence.** -/
theorem isInsertion_place (h : isRelative stage c = true) (l : List Chunk) :
    IsInsertion c l (place stage l c).value := by
  obtain ⟨behind, target, hrule⟩ := isRelative_iff.1 h
  rw [value_place_of_beside hrule]
  cases hl : insertBeside? behind target c l with
  | none => exact ⟨l, [], by simp, rfl⟩
  | some m =>
    obtain ⟨front, d, back, rfl, -, rfl⟩ := exists_of_insertBeside? hl
    cases behind with
    | false => exact ⟨front, d :: back, rfl, by simp⟩
    | true => exact ⟨front ++ [d], back, by simp, by simp⟩

/-! ### One chunk after the other -/

/-- Chunks placed one after the other. -/
def placeAll (stage : Stage) (l cs : List Chunk) : List Chunk :=
  cs.foldl (fun l c => (place stage l c).value) l

/-- **What placing one chunk keeps is kept** by placing one after the other. -/
theorem placeAll_induction {motive : List Chunk → Prop} {cs : List Chunk}
    (hcs : ∀ c ∈ cs, isRelative stage c = true)
    (step : ∀ c ∈ cs, ∀ l l', IsInsertion c l l' → motive l → motive l') (hl : motive l) :
    motive (placeAll stage l cs) := by
  induction cs generalizing l with
  | nil => exact hl
  | cons c cs ih =>
    refine ih (fun d hd => hcs d (List.mem_cons_of_mem _ hd))
      (fun d hd => step d (List.mem_cons_of_mem _ hd)) ?_
    exact step c List.mem_cons_self _ _ (isInsertion_place (hcs c List.mem_cons_self) l) hl

/-- Placing chunks loses none and adds no other. -/
theorem placeAll_perm {cs : List Chunk} (hcs : ∀ c ∈ cs, isRelative stage c = true) (l : List Chunk) :
    (placeAll stage l cs).Perm (l ++ cs) := by
  induction cs generalizing l with
  | nil => simp [placeAll]
  | cons c cs ih =>
    have hstep : (place stage l c).value.Perm (c :: l) :=
      (isInsertion_place (hcs c List.mem_cons_self) l).perm
    have hrest := ih (fun d hd => hcs d (List.mem_cons_of_mem _ hd)) (place stage l c).value
    exact (hrest.trans (hstep.append_right cs)).trans List.perm_middle.symm

/-! ### The classes of chunks -/

/-- An arrangement is the anchored chunks, with the others placed one by one. -/
theorem value_arrange (stage : Stage) (chunks : List Chunk) :
    (arrange stage chunks).value =
      placeAll stage (anchored stage chunks) (chunks.filter (isRelative stage)) := by
  rw [arrange, Logged.value_foldlM, placeAll]

/-- The chunks that are picked for their rule have such a rule. -/
theorem isRelative_of_mem_filter {chunks : List Chunk} :
    ∀ c ∈ chunks.filter (isRelative stage), isRelative stage c = true :=
  fun _ hc => (List.mem_filter.1 hc).2

/-- The chunks whose rule is about no other chunk, in some order, are those of all classes. -/
theorem mem_anchored {chunks : List Chunk} :
    c ∈ anchored stage chunks ↔ c ∈ chunks ∧ isRelative stage c = false := by
  have hrule : isRelative stage c = false ↔ c.orderRule stage = some .first ∨
      c.orderRule stage = none ∨ c.orderRule stage = some .last := by
    rw [isRelative]
    rcases c.orderRule stage with _ | rule
    · simp
    · cases rule <;> simp [OrderRule.target?]
  simp only [anchored, List.mem_append, List.mem_reverse, List.mem_filter, decide_eq_true_eq, hrule]
  tauto

/-- The chunks of all classes and those with a rule about another one are all chunks. -/
theorem anchored_append_perm (stage : Stage) (chunks : List Chunk) :
    (anchored stage chunks ++ chunks.filter (isRelative stage)).Perm chunks := by
  refine List.perm_iff_count.2 fun c => ?_
  have hcount : ∀ p : Chunk → Bool,
      (chunks.filter p).count c = if p c then chunks.count c else 0 := by
    intro p
    split
    · exact List.count_filter ‹_›
    · exact List.count_eq_zero.2 fun hc => absurd (List.mem_filter.1 hc).2 ‹_›
  obtain ⟨rule?, hrule⟩ : ∃ rule?, c.orderRule stage = rule? := ⟨_, rfl⟩
  simp only [anchored, List.count_append, List.count_reverse, hcount, isRelative, hrule]
  rcases rule? with _ | rule
  · simp
  · cases rule <;> simp [OrderRule.target?]

/-- An arrangement has the chunks that are given, and no others. -/
theorem mem_arrange {chunks : List Chunk} : c ∈ (arrange stage chunks).value ↔ c ∈ chunks := by
  rw [value_arrange]
  exact ((placeAll_perm isRelative_of_mem_filter _).trans (anchored_append_perm stage chunks)).mem_iff

/-- **Chunks are arranged without loss, and their classes stay apart**: those whose rule is about no
other chunk are the ones with the rule `first`, a later one before an earlier one, then those without a
rule, and then those with the rule `last`. -/
theorem arrange_perm_anchored (stage : Stage) (chunks : List Chunk) :
    (arrange stage chunks).value.Perm chunks ∧
      (arrange stage chunks).value.filter (!isRelative stage ·) =
        (chunks.filter fun c => c.orderRule stage = some .first).reverse
          ++ chunks.filter (fun c => c.orderRule stage = none)
          ++ chunks.filter fun c => c.orderRule stage = some .last := by
  rw [value_arrange]
  constructor
  · exact (placeAll_perm isRelative_of_mem_filter _).trans (anchored_append_perm stage chunks)
  · have hkept : (placeAll stage (anchored stage chunks) (chunks.filter (isRelative stage))).filter
        (!isRelative stage ·) = (anchored stage chunks).filter (!isRelative stage ·) := by
      refine placeAll_induction (motive := fun l => l.filter (!isRelative stage ·) =
        (anchored stage chunks).filter (!isRelative stage ·)) isRelative_of_mem_filter ?_ rfl
      intro c hc l l' hins hl
      rw [hins.filter_eq (by simp [isRelative_of_mem_filter c hc]), hl]
    rw [hkept, List.filter_eq_self.2 fun c hc => by simp [(mem_anchored.1 hc).2]]
    rfl

/-! ### Chunks beside others -/

/-- **A chunk in front of another one**, with only the given chunks in between. -/
def InFrontOf (P : Chunk → Prop) (a b : Chunk) (sequence : List Chunk) : Prop :=
  ∃ front between back, sequence = front ++ a :: between ++ b :: back ∧ ∀ d ∈ between, P d

/-- **A chunk that may stand between two others** may come into the sequence anywhere. -/
theorem InFrontOf.insertion (h : InFrontOf P a b l) (hins : IsInsertion c l l') (hc : P c) :
    InFrontOf P a b l' := by
  obtain ⟨front, between, back, rfl, hbetween⟩ := h
  obtain ⟨u, v, heq, rfl⟩ := hins
  rw [List.append_assoc, List.cons_append, List.append_eq_append_iff] at heq
  rcases heq with ⟨w, rfl, hw⟩ | ⟨w, rfl, rfl⟩
  · rcases List.cons_eq_append_iff.1 hw with ⟨rfl, rfl⟩ | ⟨x, rfl, hx⟩
    · exact ⟨front ++ [c], between, back, by simp, hbetween⟩
    · rcases List.append_eq_append_iff.1 hx with ⟨y, rfl, hy⟩ | ⟨y, rfl, rfl⟩
      · rcases List.cons_eq_append_iff.1 hy with ⟨rfl, rfl⟩ | ⟨z, rfl, rfl⟩
        · refine ⟨front, between ++ [c], back, by simp, fun d hd => ?_⟩
          rcases List.mem_append.1 hd with hd | hd
          · exact hbetween d hd
          · exact List.mem_singleton.1 hd ▸ hc
        · exact ⟨front, between, z ++ c :: v, by simp, hbetween⟩
      · refine ⟨front, x ++ c :: y, back, by simp, fun d hd => ?_⟩
        rcases List.mem_append.1 hd with hd | hd
        · exact hbetween d (List.mem_append_left _ hd)
        · rcases List.mem_cons.1 hd with rfl | hd
          · exact hc
          · exact hbetween d (List.mem_append_right _ hd)
  · exact ⟨u ++ c :: w, between, back, by simp, hbetween⟩

/-- A chunk stays in front of another one while others are placed that may stand between them. -/
theorem InFrontOf.placeAll {cs : List Chunk} (h : InFrontOf P a b l)
    (hcs : ∀ c ∈ cs, isRelative stage c = true) (hP : ∀ c ∈ cs, P c) :
    InFrontOf P a b (placeAll stage l cs) :=
  placeAll_induction hcs (fun c hc _ _ hins h => h.insertion hins (hP c hc)) h

/-- A chunk in front of another one, with whatever in between. -/
theorem InFrontOf.of_mem (h : a ∈ l) : InFrontOf (fun _ => True) a b (l ++ [b]) := by
  obtain ⟨front, between, rfl⟩ := List.append_of_mem h
  exact ⟨front, between, [], by simp, fun _ _ => trivial⟩

/-- **A chunk beside another one**: in front of it or behind it, with only the given chunks in between. -/
def IsBeside (behind : Bool) (P : Chunk → Prop) (c x : Chunk) (sequence : List Chunk) : Prop :=
  if behind then InFrontOf P x c sequence else InFrontOf P c x sequence

/-- **A chunk is placed right beside the one that its rule is about**, if that one is in the sequence. -/
theorem isBeside_place {behind : Bool} {target : String} {x : Chunk}
    (h : c.orderRule stage = some (.beside behind target)) (hnames : (l.map Chunk.name).Nodup)
    (hx : x ∈ l) (hname : x.name = target) :
    IsBeside behind P c x (place stage l c).value := by
  rw [value_place_of_beside h]
  cases hl : insertBeside? behind target c l with
  | none => exact absurd hname (insertBeside?_eq_none_iff.1 hl x hx)
  | some m =>
    obtain ⟨front, d, back, rfl, hd, rfl⟩ := exists_of_insertBeside? hl
    obtain rfl : x = d := List.inj_on_of_nodup_map hnames hx (by simp) (hname.trans hd.symm)
    cases behind with
    | false => exact ⟨front, [], back, by simp, by simp⟩
    | true => exact ⟨front, [], back, by simp, by simp⟩

/-! ### The turn of a chunk -/

/-- **The sequence when it is the turn of a chunk**: it has the chunks whose rule is about no other
chunk, and the ones among those with such a rule that come earlier. -/
def sequenceAt (stage : Stage) (chunks earlier : List Chunk) : List Chunk :=
  placeAll stage (anchored stage chunks) (earlier.filter (isRelative stage))

/-- When it is the turn of a chunk the sequence has the chunks whose rule is about no other chunk, and the
earlier ones. -/
theorem mem_sequenceAt {chunks earlier : List Chunk} (h : earlier ⊆ chunks) :
    c ∈ sequenceAt stage chunks earlier ↔
      c ∈ chunks ∧ (isRelative stage c = false ∨ c ∈ earlier) := by
  have hperm : (sequenceAt stage chunks earlier).Perm _ := placeAll_perm isRelative_of_mem_filter _
  rw [hperm.mem_iff, List.mem_append, mem_anchored, List.mem_filter]
  have := @h c
  cases isRelative stage c
  · simp
  · simp
    tauto

/-- Chunks with different names keep them. -/
theorem nodup_names_sequenceAt {chunks earlier : List Chunk} (h : earlier <+: chunks)
    (hnames : (chunks.map Chunk.name).Nodup) :
    ((sequenceAt stage chunks earlier).map Chunk.name).Nodup := by
  have hperm : (sequenceAt stage chunks earlier).Perm _ := placeAll_perm isRelative_of_mem_filter _
  rw [(hperm.map Chunk.name).nodup_iff]
  refine List.Nodup.sublist ?_ (((anchored_append_perm stage chunks).map Chunk.name).nodup_iff.2 hnames)
  exact (List.Sublist.append_left (h.sublist.filter _) _).map _

/-- **The turn of a chunk**, and the turns of those that come later. -/
theorem value_arrange_of_split {earlier later : List Chunk} (hc : isRelative stage c = true) :
    (arrange stage (earlier ++ c :: later)).value =
      placeAll stage (place stage (sequenceAt stage (earlier ++ c :: later) earlier) c).value
        (later.filter (isRelative stage)) := by
  rw [value_arrange, List.filter_append, List.filter_cons_of_pos hc, placeAll, List.foldl_append]
  rfl

/-- **A chunk stands where its rule about another one asks**, if that one has its turn ahead of it or
none at all: only chunks that have their turn later come between the two. Otherwise (there is no
other chunk of the name, or it has its turn later) the chunk stands behind all that are placed ahead of
it. -/
theorem arrange_beside (stage : Stage) {chunks earlier later : List Chunk} {c : Chunk}
    (hsplit : chunks = earlier ++ c :: later) (hnames : (chunks.map Chunk.name).Nodup)
    {behind : Bool} {target : String} (hrule : c.orderRule stage = some (.beside behind target)) :
    (∀ x ∈ chunks, x.name = target → isRelative stage x = false ∨ x ∈ earlier →
      IsBeside behind (fun d => isRelative stage d = true ∧ d ∈ later) c x
        (arrange stage chunks).value) ∧
    ((∀ x ∈ chunks, x.name = target → isRelative stage x = true ∧ x ∉ earlier) →
      ∀ d ∈ chunks, isRelative stage d = false ∨ d ∈ earlier →
        InFrontOf (fun _ => True) d c (arrange stage chunks).value) := by
  subst hsplit
  have hahead : earlier <+: earlier ++ c :: later := List.prefix_append _ _
  rw [value_arrange_of_split (isRelative_iff.2 ⟨behind, target, hrule⟩)]
  constructor
  · intro x hx hname hplaced
    have hbeside : IsBeside behind (fun d => isRelative stage d = true ∧ d ∈ later) c x
        (place stage (sequenceAt stage (earlier ++ c :: later) earlier) c).value :=
      isBeside_place hrule (nodup_names_sequenceAt hahead hnames)
        ((mem_sequenceAt hahead.subset).2 ⟨hx, hplaced⟩) hname
    have hlater : ∀ d ∈ later.filter (isRelative stage), isRelative stage d = true ∧ d ∈ later :=
      fun d hd => (List.mem_filter.1 hd).symm
    cases behind with
    | false => exact InFrontOf.placeAll hbeside isRelative_of_mem_filter hlater
    | true => exact InFrontOf.placeAll hbeside isRelative_of_mem_filter hlater
  · intro habsent d hd hplaced
    have hnone : insertBeside? behind target c
        (sequenceAt stage (earlier ++ c :: later) earlier) = none := by
      refine insertBeside?_eq_none_iff.2 fun x hx hname => ?_
      obtain ⟨hmem, hx⟩ := (mem_sequenceAt hahead.subset).1 hx
      obtain ⟨hrelative, hnew⟩ := habsent x hmem hname
      simp [hrelative, hnew] at hx
    rw [value_place_of_beside hrule, hnone, Option.getD_none]
    exact (InFrontOf.of_mem ((mem_sequenceAt hahead.subset).2 ⟨hd, hplaced⟩)).placeAll
      isRelative_of_mem_filter fun _ _ => trivial

/-! ### Chunks with rules about each other -/

/-- A chunk with a rule for the fragment stage. -/
def ruled (name rule : String) : Chunk :=
  .ofTemplate name ("@fragment(" ++ rule ++ ") \x7b\x7b " ++ name ++ "(); \x7d\x7d")

/-- Chunks with all kinds of rules. The first one asks for a place beside one that has its turn later,
and the last two for the same place. -/
def skyChunks : List Chunk :=
  [ruled "haze" "before:fog", ruled "sun" "first", ruled "grade" "after:base", ruled "base" "",
    ruled "out" "last", ruled "fog" "before:grade", ruled "mist" "before:grade"]

/-- The chunk `fog` stands in front of `grade`, and the chunk `haze` behind `out`. -/
theorem arrange_beside_sky :
    (skyChunks.map Chunk.name).Nodup ∧
      (ruled "fog" "before:grade").orderRule .fragment = some (.beside false "grade") ∧
      (ruled "haze" "before:fog").orderRule .fragment = some (.beside false "fog") ∧
      IsBeside false (fun d => isRelative .fragment d = true ∧ d ∈ [ruled "mist" "before:grade"])
        (ruled "fog" "before:grade") (ruled "grade" "after:base") (arrange .fragment skyChunks).value ∧
      InFrontOf (fun _ => True) (ruled "out" "last") (ruled "haze" "before:fog")
        (arrange .fragment skyChunks).value := by
  have hnames : (skyChunks.map Chunk.name).Nodup := by decide +kernel
  have hfog : (ruled "fog" "before:grade").orderRule .fragment = some (.beside false "grade") := by
    decide +kernel
  have hhaze : (ruled "haze" "before:fog").orderRule .fragment = some (.beside false "fog") := by
    decide +kernel
  have hlast : skyChunks =
      skyChunks.take 5 ++ ruled "fog" "before:grade" :: [ruled "mist" "before:grade"] := rfl
  have hfirst : skyChunks = [] ++ ruled "haze" "before:fog" :: skyChunks.tail := rfl
  refine ⟨hnames, hfog, hhaze, ?_, ?_⟩
  · refine (arrange_beside .fragment hlast hnames hfog).1 _ ?_ rfl ?_
    · decide +kernel
    · decide +kernel
  · refine (arrange_beside .fragment hfirst hnames hhaze).2 ?_ _ ?_ ?_
    · decide +kernel
    · decide +kernel
    · decide +kernel

example : (arrange .fragment skyChunks).value.map Chunk.name =
    ["sun", "base", "fog", "mist", "grade", "out", "haze"] := by
  decide +kernel

end Chunk

end ShaderWeave
