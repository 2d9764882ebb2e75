import ShaderWeave.Proofs.Scan.OpenComment

set_option autoImplicit false

/-!
# Where a double block is closed

A block `{{ ... }}` is closed by the first `}}` outside comments at which no brace of its body is open.
This module has the depth of braces behind a text, and says of each `}}` whether it closes: the search
for the end of a block finds the first one that does, and nothing exactly if none does.

## Main definitions

* `ShaderWeave.Scan.depthBehind` — the depth of braces behind lexemes.
* `ShaderWeave.Scan.ClosesBehind` — a `}}` behind a text closes the block.
* `ShaderWeave.Scan.IsBody` — a text behind which the block is closed for the first time.

## Main results

* `ShaderWeave.Scan.closeDouble?_spec` — what the search finds among lexemes.
* `ShaderWeave.Scan.cutAtDouble?_eq_some_iff`, `ShaderWeave.Scan.cutAtDouble?_eq_none_iff` — what it
  finds in a text.
-/

namespace ShaderWeave

namespace Scan

open Text

/-! ### Depth -/

/-- The depth behind a lexeme, given the depth in front of it. A closing brace with nothing to close
leaves the depth at zero, and braces in comments do not count. -/
def Lexeme.depthAfter (d : ℕ) : Lexeme → ℕ
  | .live c => if c = '{' then d + 1 else if c = '}' then d - 1 else d
  | .comment _ => d

/-- **The depth of braces behind lexemes**, given the depth in front of them. -/
def depthBehind (d : ℕ) (ls : List Lexeme) : ℕ :=
  ls.foldl Lexeme.depthAfter d

/-! ### Among lexemes -/

/-- **Lexemes with a closing `}}`**: what stands in front of it, at whose end the depth is zero, and
what stands behind it. -/
structure ClosesDouble (d : ℕ) (ls body rest : List Lexeme) : Prop where
  split : ls = body ++ .live '}' :: .live '}' :: rest
  depth : depthBehind d body = 0

/-- The closing `\x7d\x7d` stands at the start if and only if the depth is zero there. -/
theorem closesDouble_nil_iff {d : ℕ} {ls rest : List Lexeme} :
    ClosesDouble d ls [] rest ↔ ls = .live '}' :: .live '}' :: rest ∧ d = 0 :=
  ⟨fun h => ⟨h.split, h.depth⟩, fun h => ⟨h.1, h.2⟩⟩

/-- Behind a lexeme the closing `\x7d\x7d` is the one for the depth behind that lexeme. -/
theorem closesDouble_cons_iff {d : ℕ} {k l : Lexeme} {ls body rest : List Lexeme} :
    ClosesDouble d (l :: ls) (k :: body) rest ↔
      k = l ∧ ClosesDouble (l.depthAfter d) ls body rest := by
  constructor
  · rintro ⟨hsplit, hdepth⟩
    obtain ⟨rfl, hls⟩ := List.cons.inj hsplit
    exact ⟨rfl, hls, hdepth⟩
  · rintro ⟨rfl, hsplit, hdepth⟩
    exact ⟨by rw [hsplit, List.cons_append], hdepth⟩

/-- **One step of the search**: it stops at a `}}` at depth zero, and goes on behind any other
lexeme. -/
theorem closeDouble?_cons (d : ℕ) (l : Lexeme) (ls : List Lexeme) :
    closeDouble? d (l :: ls) =
      if d = 0 ∧ l = .live '}' ∧ ls.head? = some (.live '}') then some ([], ls.tail)
      else (closeDouble? (l.depthAfter d) ls).map fun p => (l :: p.1, p.2) := by
  by_cases hopen : l = .live '{'
  · subst hopen
    simp [closeDouble?, Lexeme.depthAfter]
  by_cases hclose : l = .live '}'
  · subst hclose
    cases d with
    | succ d => simp [closeDouble?, Lexeme.depthAfter]
    | zero =>
      by_cases hnext : ls.head? = some (.live '}')
      · obtain ⟨ls, rfl⟩ := List.head?_eq_some_iff.1 hnext
        simp [closeDouble?]
      · rw [closeDouble?, if_neg (by simp [hnext])]
        · simp [Lexeme.depthAfter]
        · simp
        · simp
        · rintro ks - - rfl
          simp at hnext
  · have hdepth : l.depthAfter d = d := by
      cases l with
      | live c => simp_all [Lexeme.depthAfter]
      | comment t => rfl
    rw [closeDouble?, if_neg (by simp [hclose]), hdepth]
    · simpa using hopen
    · rintro n - h
      exact absurd h hclose
    · rintro ks - h
      exact absurd h hclose

/-- **What the search finds** is a closing `}}` in front of all others; where it finds nothing there is
none.

**Proof sketch.** Induction on the lexemes. At the first one either the search stops, with nothing in
front, or no closing `}}` starts there, and those further on are those behind it. -/
theorem closeDouble?_spec (d : ℕ) (ls : List Lexeme) :
    (closeDouble? d ls = none → ∀ b r, ¬ClosesDouble d ls b r) ∧
      ∀ body rest, closeDouble? d ls = some (body, rest) →
        ClosesDouble d ls body rest ∧ ∀ b r, ClosesDouble d ls b r → body <+: b := by
  induction ls generalizing d with
  | nil =>
    refine ⟨fun _ b r h => ?_, fun body rest h => by simp [closeDouble?] at h⟩
    simpa using congrArg List.length h.split
  | cons l ls ih =>
    rw [closeDouble?_cons]
    split
    · rename_i hstop
      obtain ⟨rfl, rfl, hnext⟩ := hstop
      obtain ⟨ls, rfl⟩ := List.head?_eq_some_iff.1 hnext
      refine ⟨fun h => by simp at h, fun body rest h => ?_⟩
      cases h
      exact ⟨closesDouble_nil_iff.2 ⟨rfl, rfl⟩, fun b r _ => List.nil_prefix⟩
    · rename_i hgo
      -- a closing `}}` does not start at the first lexeme
      have hcons : ∀ b r, ClosesDouble d (l :: ls) b r →
          ∃ b', b = l :: b' ∧ ClosesDouble (l.depthAfter d) ls b' r := by
        rintro (_ | ⟨k, b⟩) r h
        · obtain ⟨heq, rfl⟩ := closesDouble_nil_iff.1 h
          obtain ⟨rfl, rfl⟩ := List.cons.inj heq
          simp at hgo
        · obtain ⟨rfl, hb⟩ := closesDouble_cons_iff.1 h
          exact ⟨b, rfl, hb⟩
      obtain ⟨hnone, hsome⟩ := ih (l.depthAfter d)
      refine ⟨fun h b r hb => ?_, fun body rest h => ?_⟩
      · obtain ⟨b', -, hb'⟩ := hcons b r hb
        exact hnone (by simpa using h) b' r hb'
      · obtain ⟨⟨body', rest'⟩, hfound, heq⟩ := Option.map_eq_some_iff.1 h
        cases heq
        obtain ⟨hcloses, hfirst⟩ := hsome _ _ hfound
        refine ⟨closesDouble_cons_iff.2 ⟨rfl, hcloses⟩, fun b r hb => ?_⟩
        obtain ⟨b', rfl, hb'⟩ := hcons b r hb
        exact List.cons_prefix_cons.2 ⟨rfl, hfirst b' r hb'⟩

/-! ### In a text -/

/-- **A `}}` behind a text closes the block** whose body the text is: the comments of the text are
closed, so that the `}}` is in none of them, and no brace is open. -/
def ClosesBehind (body : Text) : Prop :=
  CommentsClosed body ∧ depthBehind 0 (lexemes body) = 0

/-- **A body**: a `}}` behind it closes the block, and no earlier one does. -/
structure IsBody (body : Text) : Prop where
  closes : ClosesBehind body
  first : ∀ p, p ++ ['}', '}'] <+: body ++ ['}', '}'] → ClosesBehind p → p = body

/-- The closing `}}` of a text are those of its lexemes. -/
theorem closesDouble_lexemes_iff {t p q : Text} :
    (∃ b r, ClosesDouble 0 (lexemes t) b r ∧ source b = p ∧ source r = q) ↔
      t = p ++ '}' :: '}' :: q ∧ ClosesBehind p := by
  constructor
  · rintro ⟨b, r, ⟨hsplit, hdepth⟩, rfl, rfl⟩
    obtain ⟨hlexemes, hclosed⟩ := lexemes_source hsplit (by simp)
    refine ⟨?_, hclosed, by rw [hlexemes, hdepth]⟩
    rw [← source_lexemes t, hsplit]
    simp [Lexeme.text]
  · rintro ⟨rfl, hclosed, hdepth⟩
    refine ⟨lexemes p, lexemes q, ⟨?_, hdepth⟩, source_lexemes p, source_lexemes q⟩
    rw [lexemes_append_cons hclosed (by decide) (by decide),
      lexemes_of_live (comment?_cons_eq_none (by decide) _),
      lexemes_of_live (comment?_cons_eq_none (by decide) _)]

/-- **Nothing is found exactly if no `}}` closes the block.** -/
theorem cutAtDouble?_eq_none_iff {t : Text} :
    cutAtDouble? 0 t = none ↔ ∀ p q, t = p ++ '}' :: '}' :: q → ¬ClosesBehind p := by
  rw [cutAtDouble?_eq, Option.map_eq_none_iff]
  constructor
  · intro h p q ht hp
    obtain ⟨b, r, hb, -⟩ := closesDouble_lexemes_iff.2 ⟨ht, hp⟩
    exact (closeDouble?_spec 0 (lexemes t)).1 h b r hb
  · intro h
    rw [Option.eq_none_iff_forall_ne_some]
    rintro ⟨body, rest⟩ hfound
    obtain ⟨hcloses, -⟩ := (closeDouble?_spec 0 (lexemes t)).2 body rest hfound
    obtain ⟨ht, hbody⟩ := closesDouble_lexemes_iff.1 ⟨body, rest, hcloses, rfl, rfl⟩
    exact h _ _ ht hbody

/-- What is found is a closing `}}` in front of all others. -/
theorem of_cutAtDouble?_eq_some {t body rest : Text} (h : cutAtDouble? 0 t = some (body, rest)) :
    t = body ++ '}' :: '}' :: rest ∧ ClosesBehind body ∧
      ∀ p, p ++ ['}', '}'] <+: t → ClosesBehind p → body <+: p := by
  rw [cutAtDouble?_eq] at h
  obtain ⟨⟨b, r⟩, hfound, heq⟩ := Option.map_eq_some_iff.1 h
  obtain ⟨rfl, rfl⟩ := Prod.mk.inj heq
  obtain ⟨hcloses, hfirst⟩ := (closeDouble?_spec 0 (lexemes t)).2 b r hfound
  obtain ⟨ht, hbody⟩ := closesDouble_lexemes_iff.1 ⟨b, r, hcloses, rfl, rfl⟩
  refine ⟨ht, hbody, ?_⟩
  rintro p ⟨q, hq⟩ hp
  obtain ⟨b', r', hb', rfl, -⟩ := closesDouble_lexemes_iff.2 ⟨by simpa using hq.symm, hp⟩
  obtain ⟨ls, rfl⟩ := hfirst b' r' hb'
  exact ⟨source ls, (source_append b ls).symm⟩

/-- **What is found is the body**, with what stands behind the block. -/
theorem cutAtDouble?_eq_some_iff {t body rest : Text} :
    cutAtDouble? 0 t = some (body, rest) ↔ t = body ++ '}' :: '}' :: rest ∧ IsBody body := by
  constructor
  · intro h
    obtain ⟨rfl, hbody, hfirst⟩ := of_cutAtDouble?_eq_some h
    refine ⟨rfl, hbody, fun p hp hcloses => ?_⟩
    have hp' : body <+: p := hfirst p (hp.trans ⟨rest, by simp⟩) hcloses
    refine (hp'.eq_of_length_le ?_).symm
    simpa using hp.length_le
  · rintro ⟨rfl, hbody⟩
    cases h : cutAtDouble? 0 (body ++ '}' :: '}' :: rest) with
    | none => exact absurd hbody.closes (cutAtDouble?_eq_none_iff.1 h body rest rfl)
    | some found =>
      obtain ⟨p, q⟩ := found
      obtain ⟨heq, hp, hfirst⟩ := of_cutAtDouble?_eq_some h
      have hbodyPrefix : body ++ ['}', '}'] <+: body ++ '}' :: '}' :: rest := ⟨rest, by simp⟩
      have hlength : (p ++ ['}', '}']).length ≤ (body ++ ['}', '}']).length := by
        simpa using (hfirst body hbodyPrefix hbody.closes).length_le
      have hpPrefix : p ++ ['}', '}'] <+: body ++ '}' :: '}' :: rest := ⟨q, by rw [heq]; simp⟩
      obtain rfl := hbody.first p (List.prefix_of_prefix_length_le hpPrefix hbodyPrefix hlength) hp
      have hrest : rest = q := by simpa using heq
      rw [hrest]

end Scan

end ShaderWeave
