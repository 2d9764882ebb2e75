set_option autoImplicit false

/-!
# Results with a log

Much of the work on a shader can meet something that is worth telling and yet no reason to stop. A
result `Logged ν α` is a value together with what was noticed on the way, in order.

## Main definitions

* `ShaderWeave.Logged` — a value and the notices that it came with.
* `ShaderWeave.Logged.note` — records a notice.

## Main results

* `ShaderWeave.Logged.value_bind`, `ShaderWeave.Logged.value_foldlM`, `ShaderWeave.Logged.value_mapM`
  — the value never depends on the notices.
-/

namespace ShaderWeave

/-- **A result with a log.** -/
structure Logged (ν α : Type) where
  /-- The result. -/
  value : α
  /-- What was noticed on the way, in order. -/
  notices : List ν

namespace Logged

variable {ν α β σ : Type}

/-- One notice. -/
def note (n : ν) : Logged ν Unit :=
  ⟨(), [n]⟩

/-- Results in sequence, with the notices of the second behind those of the first. -/
instance : Monad (Logged ν) where
  pure a := ⟨a, []⟩
  bind x f := ⟨(f x.value).value, x.notices ++ (f x.value).notices⟩

/-- A result that needs no work is the value itself. -/
@[simp] theorem value_pure (a : α) : (pure a : Logged ν α).value = a := rfl

/-- A result that needs no work leaves no notice. -/
@[simp] theorem notices_pure (a : α) : (pure a : Logged ν α).notices = [] := rfl

/-- The value of two steps is that of the second at the value of the first. -/
@[simp] theorem value_bind (x : Logged ν α) (f : α → Logged ν β) :
    (x >>= f).value = (f x.value).value := rfl

/-- The notices of two steps follow one another. -/
@[simp] theorem notices_bind (x : Logged ν α) (f : α → Logged ν β) :
    (x >>= f).notices = x.notices ++ (f x.value).notices := rfl

/-- The value of a mapped result is the mapped value. -/
@[simp] theorem value_map (f : α → β) (x : Logged ν α) : (f <$> x).value = f x.value := rfl

/-- Two results with the same value and the same notices are equal. -/
@[ext] theorem ext {x y : Logged ν α} (hv : x.value = y.value) (hn : x.notices = y.notices) :
    x = y := by
  cases x; cases y; simp_all

/-- Sequencing is associative with `pure` as its unit, as appending notices is. -/
instance : LawfulMonad (Logged ν) :=
  LawfulMonad.mk' (Logged ν)
    (fun x => by apply ext <;> simp [Functor.map])
    (fun a f => by apply ext <;> simp)
    (fun x f g => by apply ext <;> simp)

/-- A value does not depend on the notices of a fold. -/
@[simp] theorem value_foldlM (f : σ → α → Logged ν σ) (s : σ) (as : List α) :
    (as.foldlM f s).value = as.foldl (fun s a => (f s a).value) s := by
  induction as generalizing s with
  | nil => rfl
  | cons a as ih => simp [List.foldlM_cons, ih]

/-- The values of a list of results. -/
@[simp] theorem value_mapM (f : α → Logged ν β) (as : List α) :
    (as.mapM f).value = as.map fun a => (f a).value := by
  induction as with
  | nil => simp
  | cons a as ih => simp [List.mapM_cons, ih]

end Logged

end ShaderWeave
