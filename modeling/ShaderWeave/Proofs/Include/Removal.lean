import ShaderWeave.Proofs.Scan.Splice

set_option autoImplicit false

/-!
# Comments in a text without its directives

Directives are taken out of a text as whole lines, and the rest keeps its comments: a directive is read
only where no block comment is open, and if it leaves none open either, the lexemes of the text are those
of the stretches between its directives, one after the other.

## Main results

* `ShaderWeave.Include.lexemes_stripIncludes` — the lexemes of a text without its directives.
-/

namespace ShaderWeave

namespace Include

open Text Scan

/-- Lines behind which no block comment is open keep apart from what follows them. -/
theorem complete_flatten {ls ms : List Text} (h : IsLines (ls ++ ms)) (hne : ms ≠ [])
    (hopen : ls.foldl commentOpenAfter false = false) : Complete ls.flatten := by
  refine complete_of_startsLine (h.startsLine hne) ?_
  rwa [← foldl_commentOpenAfter_lines, lines_flatten h.of_append.1]

/-- A directive is read only where no block comment is open. -/
theorem eq_false_of_directive {b : Bool} {ls : List Text} {p : Text × Option Text}
    {back : List (Text × Option Text)} (h : directivesFrom b ls = p :: back) (hp : p.2.isSome = true) :
    b = false := by
  cases ls with
  | nil => cases h
  | cons l ls =>
    cases b with
    | false => rfl
    | true =>
      rw [← (List.cons.inj h).1] at hp
      cases hp

/-- What the removal of directives keeps of lines. -/
def kept (ds : List (Text × Option Text)) : Text :=
  (ds.filter (·.2.isNone)).flatMap Prod.fst

/-- Lines without directives are all kept. -/
theorem kept_of_forall {ds : List (Text × Option Text)} (h : ∀ p ∈ ds, ¬p.2.isSome = true) :
    kept ds = (ds.map Prod.fst).flatten := by
  rw [kept, List.filter_eq_self.2 fun p hp => by simpa using h p hp, List.flatMap_def]

/-- **Lexemes of lines, cut at the directives among them**, each of which has the name that it includes.

**Proof sketch.** Induction on the directives. The lines up to the first one are complete, since it is
read, and so is the directive itself, since it leaves no block comment open. -/
theorem exists_lexemes_cut {ds : List (Text × Option Text)} (hlines : IsLines (ds.map Prod.fst))
    (hread : directivesFrom false (ds.map Prod.fst) = ds)
    (hclosed : ∀ p ∈ ds, p.2.isSome = true → commentOpenAfter false p.1 = false) :
    ∃ cut : List (List Lexeme × Option Text),
      lexemes (ds.map Prod.fst).flatten = cut.flatMap Prod.fst ∧
      lexemes (kept ds) = (cut.filter (·.2.isNone)).flatMap Prod.fst ∧
      (cut.filter (·.2.isSome)).map (Prod.map source id) = ds.filter (·.2.isSome) := by
  induction hn : ds.length using Nat.strong_induction_on generalizing ds with
  | _ n ih =>
  subst hn
  cases hfind : ds.find? (·.2.isSome) with
  | none =>
    -- no directives: all lines are one uncut part
    rw [List.find?_eq_none] at hfind
    refine ⟨[(lexemes (ds.map Prod.fst).flatten, none)], by simp, ?_, ?_⟩
    · rw [kept_of_forall hfind]
      simp
    · rw [List.filter_eq_nil_iff.2 hfind]
      rfl
  | some p =>
    -- the lines in front of the first directive, the directive, and the rest by induction
    obtain ⟨hp, front, back, rfl, hfront⟩ := List.find?_eq_some_iff_append.1 hfind
    have hfront : ∀ q ∈ front, ¬q.2.isSome = true := by simpa using hfront
    obtain ⟨l, _ | name⟩ := p
    · cases hp
    have hclosed' : commentOpenAfter false l = false := hclosed (l, some name) (by simp) rfl
    obtain ⟨-, hrest⟩ := directivesFrom_of_eq_append hread
    have hopen := eq_false_of_directive hrest rfl
    have hback : directivesFrom false (back.map Prod.fst) = back := by
      rw [hopen, List.map_cons, directivesFrom, hclosed'] at hrest
      exact (List.cons.inj hrest).2
    rw [List.map_append, List.map_cons] at hlines
    have hcompleteFront := complete_flatten hlines (by simp) hopen
    have hdirective : lexemes (l ++ (back.map Prod.fst).flatten) =
        lexemes l ++ lexemes (back.map Prod.fst).flatten := by
      rcases eq_or_ne back [] with rfl | hne
      · simp [lexemes]
      · have hcomplete : Complete [l].flatten :=
          complete_flatten hlines.of_append.2 (by simpa using hne) hclosed'
        rw [List.flatten_singleton] at hcomplete
        exact hcomplete _
    have hkept : kept (front ++ (l, some name) :: back) = (front.map Prod.fst).flatten ++ kept back := by
      rw [kept, List.filter_append, List.flatMap_append, ← kept, kept_of_forall hfront]
      rfl
    obtain ⟨cut, hwhole, hleft, hnames⟩ := ih back.length (by simp; omega)
      hlines.of_append.2.of_cons hback
      (fun q hq => hclosed q (by simp [hq])) rfl
    refine ⟨(lexemes (front.map Prod.fst).flatten, none) :: (lexemes l, some name) :: cut, ?_, ?_, ?_⟩
    · rw [List.map_append, List.map_cons, List.flatten_append, List.flatten_cons, hcompleteFront,
        hdirective, hwhole]
      rfl
    · rw [hkept, hcompleteFront, hleft]
      rfl
    · rw [List.filter_append, List.filter_eq_nil_iff.2 hfront]
      simp [source_lexemes, hnames]

/-- **The lexemes of a text without its directives.** If no directive leaves a block comment open, the
lexemes of the text can be cut at the directives, and those of the stretches between them are the lexemes
of what is left. -/
theorem lexemes_stripIncludes {s : Text} (h : ClosesComments s) :
    ∃ cut : List (List Lexeme × Option Text),
      lexemes s = cut.flatMap Prod.fst ∧
      lexemes (stripIncludes s) = (cut.filter (·.2.isNone)).flatMap Prod.fst ∧
      (cut.filter (·.2.isSome)).map (Prod.map source id) = (directives s).filter (·.2.isSome) := by
  have hfst : (directives s).map Prod.fst = lines s := map_fst_directivesFrom false (lines s)
  have hlines : IsLines ((directives s).map Prod.fst) := hfst ▸ isLines_lines s
  have hcut := exists_lexemes_cut hlines (by rw [hfst]; rfl) h
  rwa [hfst, flatten_lines] at hcut

end Include

end ShaderWeave
