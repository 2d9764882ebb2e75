import Mathlib.Data.List.Forall2
import ShaderWeave.Composition

set_option autoImplicit false

/-!
# Chunks that play the same role

Which chunks a program has, in which order they come, and whether a strict composition fails, is
decided by their names, their includes, their order rules, their defects, and by whether they have
code. Where two scopes only differ in chunks that agree in all these, the same names are visited in
both, and the chunks that are collected and arranged correspond to each other.

## Main definitions

* `ShaderWeave.Chunk.SameRole` — chunks that only differ in the texts that they contribute.
* `ShaderWeave.Scope.Corresponds` — scopes in which the same names have corresponding chunks.

## Main results

* `ShaderWeave.Scope.Corresponds.collect` — corresponding chunks are collected, or the error is the
  same.
* `ShaderWeave.Chunk.arrange_corresponds` — corresponding chunks are arranged alike.
-/

namespace ShaderWeave

/-- Chunks are equal if their names and their templates are. -/
instance : DecidableEq Chunk := fun a b =>
  decidable_of_iff (a.name = b.name ∧ a.template = b.template)
    ⟨fun h => Chunk.ext_template h.1 h.2, fun h => h ▸ ⟨rfl, rfl⟩⟩

/-! ### Chunks that play the same role -/

/-- **Chunks that only differ in the texts that they contribute**: nothing that decides about other
chunks tells them apart. -/
structure Chunk.SameRole (a b : Chunk) : Prop where
  name : a.name = b.name
  includes : a.includes = b.includes
  defects : a.defects = b.defects
  orderRule : ∀ stage, a.orderRule stage = b.orderRule stage
  code : ∀ stage, a.code stage = [] ↔ b.code stage = []

/-- A chunk has the role that it has. -/
theorem Chunk.SameRole.refl (c : Chunk) : c.SameRole c :=
  ⟨rfl, rfl, rfl, fun _ => rfl, fun _ => .rfl⟩

/-- Chunks that play the same role are relevant to the same stages. -/
theorem Chunk.SameRole.isRelevant {a b : Chunk} (h : a.SameRole b) (stage : Stage) :
    Composer.isRelevant stage a = Composer.isRelevant stage b := by
  have hstages : a.stages = b.stages := by
    refine StageSet.ext_has fun s => ?_
    simp [Chunk.stages, h.code s]
  simp [Composer.isRelevant, Chunk.isDeclarationOnly, hstages, h.code stage]

variable {R : Chunk → Chunk → Prop}

/-! ### Visiting and collecting -/

namespace Scope

/-- **Scopes in which the same names have corresponding chunks.** -/
def Corresponds (R : Chunk → Chunk → Prop) (a b : Scope) : Prop :=
  ∀ name, Option.Rel R (a.find? name) (b.find? name)

variable {a b : Scope}

/-- Corresponding scopes include the same names from the chunk of a name. -/
theorem Corresponds.includesOf (h : a.Corresponds R b) (hR : ∀ c d, R c d → c.SameRole d)
    (name : String) : a.includesOf name = b.includesOf name := by
  have hname := h name
  rw [Scope.includesOf, Scope.includesOf]
  generalize a.find? name = c at hname
  generalize b.find? name = d at hname
  cases hname with
  | some hcd => exact (hR _ _ hcd).includes
  | none => rfl

/-- **The same names are visited**, with corresponding chunks. -/
theorem Corresponds.visitsFrom (h : a.Corresponds R b) (hR : ∀ c d, R c d → c.SameRole d)
    (seen queue : List String) :
    List.Forall₂ (fun p q => p.1 = q.1 ∧ Option.Rel R p.2 q.2) (a.visitsFrom seen queue)
      (b.visitsFrom seen queue) := by
  fun_induction Scope.visitsFrom a seen queue with
  | case1 =>
    rw [Scope.visitsFrom]
    exact .nil
  | case2 seen name queue ih =>
    have hnew : a.newNames seen name = b.newNames seen name := by
      rw [newNames, newNames, h.includesOf hR]
    rw [Scope.visitsFrom.eq_2 b]
    rw [hnew] at ih ⊢
    exact .cons ⟨rfl, h name⟩ ih

/-- Visits of corresponding chunks are wrong in the same way. -/
theorem error?_eq_of_rel (hR : ∀ c d, R c d → c.SameRole d) (shader : String)
    {p q : String × Option Chunk} (h : p.1 = q.1 ∧ Option.Rel R p.2 q.2) :
    error? shader p = error? shader q := by
  obtain ⟨n, c⟩ := p
  obtain ⟨m, d⟩ := q
  obtain ⟨rfl, hcd⟩ := h
  cases hcd with
  | none => rfl
  | some hcd => rw [error?, error?, (hR _ _ hcd).defects, (hR _ _ hcd).name]

/-- **Corresponding chunks are collected, or the error is the same.** -/
theorem Corresponds.collect (h : a.Corresponds R b) (hR : ∀ c d, R c d → c.SameRole d)
    (strict : Bool) (shader : String) (s : Text) :
    (∃ e, (a.collect strict shader s).value = .error e ∧
        (b.collect strict shader s).value = .error e) ∨
      ∃ cs ds, (a.collect strict shader s).value = .ok cs ∧
        (b.collect strict shader s).value = .ok ds ∧ List.Forall₂ R cs ds := by
  have hvisits := h.visitsFrom hR (includeNames s) (includeNames s)
  have herror : (a.visits (includeNames s)).findSome? (error? shader) =
      (b.visits (includeNames s)).findSome? (error? shader) := by
    rw [visits, visits]
    generalize a.visitsFrom (includeNames s) (includeNames s) = ps at hvisits
    generalize b.visitsFrom (includeNames s) (includeNames s) = qs at hvisits
    induction hvisits with
    | nil => rfl
    | cons hpq _ ih => rw [List.findSome?_cons, List.findSome?_cons, error?_eq_of_rel hR shader hpq, ih]
  have hchunks : List.Forall₂ R ((a.visits (includeNames s)).filterMap Prod.snd)
      ((b.visits (includeNames s)).filterMap Prod.snd) := by
    rw [visits, visits]
    generalize a.visitsFrom (includeNames s) (includeNames s) = ps at hvisits
    generalize b.visitsFrom (includeNames s) (includeNames s) = qs at hvisits
    induction hvisits with
    | nil => exact .nil
    | @cons p q _ _ hpq _ ih =>
      obtain ⟨n, c⟩ := p
      obtain ⟨m, d⟩ := q
      cases hpq.2 with
      | none => exact ih
      | some hcd => exact .cons hcd ih
  rw [Scope.collect, Scope.collect]
  cases strict with
  | false => exact .inr ⟨_, _, rfl, rfl, hchunks⟩
  | true =>
    simp only [if_true, herror]
    cases (b.visits (includeNames s)).findSome? (error? shader) with
    | some e => exact .inl ⟨e, rfl, rfl⟩
    | none => exact .inr ⟨_, _, rfl, rfl, hchunks⟩

end Scope

/-! ### The order of chunks -/

namespace Chunk

/-- A chunk is placed beside corresponding ones. -/
theorem insertBeside?_corresponds (hR : ∀ c d, R c d → c.SameRole d) {c d : Chunk} (hcd : R c d)
    (behind : Bool) (target : String) {cs ds : List Chunk} (h : List.Forall₂ R cs ds) :
    Option.Rel (List.Forall₂ R) (insertBeside? behind target c cs)
      (insertBeside? behind target d ds) := by
  induction h with
  | nil => exact .none
  | @cons c' d' cs ds hcd' h ih =>
    rw [insertBeside?, insertBeside?, (hR _ _ hcd').name]
    by_cases hname : d'.name = target
    · rw [if_pos hname, if_pos hname]
      cases behind
      · exact .some (.cons hcd (.cons hcd' h))
      · exact .some (.cons hcd' (.cons hcd h))
    · rw [if_neg hname, if_neg hname]
      generalize insertBeside? behind target c cs = u at ih
      generalize insertBeside? behind target d ds = v at ih
      cases ih with
      | none => exact .none
      | some h => exact .some (.cons hcd' h)

/-- A chunk with a rule about another one is placed beside it, or at the end. -/
theorem value_place_beside {stage : Stage} {c : Chunk} {cs : List Chunk} {target : String} :
    (c.orderRule stage = some (.before target) →
      (place stage cs c).value = (insertBeside? false target c cs).getD (cs ++ [c])) ∧
    (c.orderRule stage = some (.after target) →
      (place stage cs c).value = (insertBeside? true target c cs).getD (cs ++ [c])) := by
  constructor
  · intro h
    simp only [place, h]
    cases insertBeside? false target c cs <;> rfl
  · intro h
    simp only [place, h]
    cases insertBeside? true target c cs <;> rfl

/-- Corresponding chunks are placed alike. -/
theorem place_corresponds (hR : ∀ c d, R c d → c.SameRole d) {stage : Stage} {c d : Chunk}
    (hcd : R c d) {cs ds : List Chunk} (h : List.Forall₂ R cs ds) :
    List.Forall₂ R (place stage cs c).value (place stage ds d).value := by
  have hend : List.Forall₂ R (cs ++ [c]) (ds ++ [d]) := List.rel_append h (.cons hcd .nil)
  have hbeside : ∀ behind target, List.Forall₂ R
      ((insertBeside? behind target c cs).getD (cs ++ [c]))
      ((insertBeside? behind target d ds).getD (ds ++ [d])) := by
    intro behind target
    have := insertBeside?_corresponds hR hcd behind target h
    generalize insertBeside? behind target c cs = u at this
    generalize insertBeside? behind target d ds = v at this
    cases this with
    | none => exact hend
    | some h => exact h
  have hrule := (hR _ _ hcd).orderRule stage
  rcases hd : d.orderRule stage with _ | rule
  · simpa [place, hrule, hd] using hend
  · rw [hd] at hrule
    cases rule with
    | before target =>
      rw [value_place_beside.1 hrule, value_place_beside.1 hd]
      exact hbeside false target
    | after target =>
      rw [value_place_beside.2 hrule, value_place_beside.2 hd]
      exact hbeside true target
    | first => simpa [place, hrule, hd] using hend
    | last => simpa [place, hrule, hd] using hend

/-- **Corresponding chunks are arranged alike.** -/
theorem arrange_corresponds (hR : ∀ c d, R c d → c.SameRole d) (stage : Stage) {cs ds : List Chunk}
    (h : List.Forall₂ R cs ds) :
    List.Forall₂ R (arrange stage cs).value (arrange stage ds).value := by
  have hfilter : ∀ (p : Chunk → Bool), (∀ c d, R c d → p c = p d) →
      List.Forall₂ R (cs.filter p) (ds.filter p) := fun p hp =>
    List.rel_filter (fun c d hcd => by simp only [hp c d hcd]) h
  have hrule : ∀ {c d}, R c d → c.orderRule stage = d.orderRule stage :=
    fun hcd => (hR _ _ hcd).orderRule stage
  have hanchored : List.Forall₂ R (anchored stage cs) (anchored stage ds) := by
    rw [anchored, anchored]
    refine List.rel_append (List.rel_append (List.rel_reverse ?_) ?_) ?_
    · exact hfilter _ fun c d hcd => by rw [hrule hcd]
    · exact hfilter _ fun c d hcd => by rw [hrule hcd]
    · exact hfilter _ fun c d hcd => by rw [hrule hcd]
  have hrelative : List.Forall₂ R (cs.filter (isRelative stage)) (ds.filter (isRelative stage)) :=
    hfilter _ fun c d hcd => by rw [isRelative, isRelative, hrule hcd]
  rw [arrange, arrange, Logged.value_foldlM, Logged.value_foldlM]
  exact List.rel_foldl (P := List.Forall₂ R) (R := R)
    (fun _ _ hs _ _ hcd => place_corresponds hR hcd hs) hanchored hrelative

end Chunk

end ShaderWeave
