import ShaderWeave.Proofs.Composition.LastNewline
import ShaderWeave.Proofs.Scan.Splice

set_option autoImplicit false

/-!
# The stage of texts put together

The stage of a template is looked for from left to right, and a marker does not go on behind the end of
its line. So the markers of texts put together at the start of a line, outside block comments, are those
of the texts, one after the other.

## Main results

* `ShaderWeave.Scan.items_append` — the items of texts put together, if each item covers one character.
* `ShaderWeave.stageMarkers_append` — the markers and placeholders of texts put together.
* `ShaderWeave.stageMarkers_append_of_notMem` — a text without `@` and `{` has none.
-/

namespace ShaderWeave

open Text Scan

namespace Scan

variable {α : Type} {R : Reader α} {u v : Text}

/-- A character outside comments is one of the text. -/
theorem mem_of_live_mem {c : Char} {s : Text} (h : .live c ∈ lexemes s) : c ∈ s := by
  rw [← source_lexemes s]
  exact List.mem_flatMap.2 ⟨_, h, List.mem_singleton_self c⟩

/-- **The items of texts put together**, if each item covers one character and is read in the first text
whether the second one follows or not.

**Proof sketch.** Along the lexemes of the first text. What follows one of them in the texts put together
is what follows it in the first text, and the second text. -/
theorem items_append (hlex : lexemes (u ++ v) = lexemes u ++ lexemes v)
    (hone : ∀ {c s a r}, R.read (c :: s) = some (a, r) → r = s)
    (hread : ∀ c s, c :: s <:+ u → (R.read (c :: (s ++ v))).map Prod.fst = (R.read (c :: s)).map Prod.fst) :
    items R (u ++ v) = items R u ++ items R v := by
  have hrest : ∀ {s t : Text}, lexemes s = lexemes t ++ lexemes v → s = t ++ v := fun {s t} h => by
    rw [← source_lexemes s, h, source_append, source_lexemes, source_lexemes]
  fun_induction lexemes u with
  | case1 => simp
  | case2 c u t r hcomment ih =>
    rw [List.cons_append] at hlex ⊢
    obtain ⟨r', hcomment', hr⟩ := comment?_of_lexemes_eq hlex
    obtain rfl := hrest hr
    have hsuffix : r <:+ c :: u := ⟨t, (comment?_eq_append hcomment).1.symm⟩
    rw [items_of_comment? hcomment', items_of_comment? hcomment]
    exact ih hr fun d s hs => hread d s (hs.trans hsuffix)
  | case3 c u hlive ih =>
    rw [List.cons_append] at hlex
    obtain ⟨r, heq, hlive', hr⟩ := eq_cons_of_lexemes_eq hlex
    obtain rfl : u ++ v = r := (List.cons.inj heq).2
    have htail := ih hr fun d s hs => hread d s (hs.trans (List.suffix_cons c u))
    have hsame := hread c u (List.suffix_refl _)
    rw [List.cons_append]
    cases hitem : R.read (c :: u) with
    | none =>
      rw [hitem, Option.map_none, Option.map_eq_none_iff] at hsame
      rw [items_of_unread hlive' hsame, items_of_unread hlive hitem, htail]
    | some p =>
      obtain ⟨a, r⟩ := p
      rw [hitem, Option.map_some, Option.map_eq_some_iff] at hsame
      obtain ⟨⟨b, r'⟩, hitem', rfl⟩ := hsame
      obtain rfl := hone hitem
      obtain rfl := hone hitem'
      rw [items_of_read hlive' hitem', items_of_read hlive hitem, htail, List.cons_append]

end Scan

/-! ### Markers in front of the end of a line -/

/-- A placeholder at the start of a text: a name between double braces. -/
theorem readStageMarker_placeholder (s : Text) :
    readStageMarker ('{' :: '{' :: s) = (word? s).bind fun p =>
      if (after? ['}', '}'] p.2).isSome then (Stage.ofName? p.1).map fun stage => (stage, '{' :: s)
      else none := by
  rw [readStageMarker]
  cases word? s with
  | none => rfl
  | some p =>
    obtain ⟨w, r⟩ := p
    rw [Option.bind_some]
    split
    · rename_i heq
      cases heq
      rfl
    · rename_i hclose
      have hnone : after? ['}', '}'] r = none := by
        refine Option.eq_none_iff_forall_ne_some.2 fun t ht => ?_
        exact hclose w t (by rw [after?_eq_some_iff.1 ht]; rfl)
      simp [hnone]

/-- Double braces in front of the end of a line stand on that line. -/
theorem isSome_after?_append {pat v : Text} (hpat : '\n' ∉ pat) (hv : EndsLine v) (s : Text) :
    (after? pat (s ++ v)).isSome = (after? pat s).isSome := by
  cases hs : after? pat s with
  | none => rw [after?_append_eq_none hpat hv hs]
  | some r =>
    rw [after?_eq_some_iff.1 hs, List.append_assoc, after?_append]
    rfl

/-- **A marker does not go on behind the end of its line.** -/
theorem readStageMarker_append {v : Text} (hv : EndsLine v) (s : Text) :
    readStageMarker (s ++ v) = (readStageMarker s).map fun p => (p.1, p.2 ++ v) := by
  have hhead : ∀ {c : Char} {r : Text}, c ≠ '\n' → v ≠ c :: r := by
    rintro c r hc rfl
    exact hc (hv c rfl)
  cases s with
  | nil =>
    rw [List.nil_append, readStageMarker]
    · rfl
    · exact fun r => hhead (by decide)
    · exact fun r => hhead (by decide)
  | cons c s =>
    by_cases hat : c = '@'
    · subst hat
      rw [List.cons_append, readStageMarker, readStageMarker, word?_append_of_endsLine hv]
      cases word? s with
      | none => rfl
      | some p => simp [Function.comp_def]
    · by_cases hopen : c = '{' ∧ ∃ r, s = '{' :: r
      · obtain ⟨rfl, s, rfl⟩ := hopen
        rw [List.cons_append, List.cons_append, readStageMarker_placeholder,
          readStageMarker_placeholder, word?_append_of_endsLine hv]
        cases word? s with
        | none => rfl
        | some p =>
          have hclose := @isSome_after?_append ['}', '}'] v (by decide) hv p.2
          simp only [Option.map_some, Option.bind_some, hclose]
          split
          · simp [Function.comp_def]
          · rfl
      · have hunread : ∀ t, (∀ r, t = '{' :: r → ∃ r', s = '{' :: r') →
            readStageMarker (c :: t) = none := by
          intro t ht
          rw [readStageMarker]
          · exact fun r heq => hat (List.cons.inj heq).1
          · intro r heq
            obtain ⟨hc, hs⟩ := List.cons.inj heq
            exact hopen ⟨hc, ht r hs⟩
        rw [List.cons_append, hunread s fun r hr => ⟨r, hr⟩, hunread (s ++ v)]
        · rfl
        · intro r hr
          cases s with
          | nil => exact absurd hr (hhead (by decide))
          | cons d s => exact ⟨s, by rw [(List.cons.inj hr).1]⟩

/-- A marker is passed one character at a time. -/
theorem eq_of_readStageMarker {c : Char} {s r : Text} {stage : Stage}
    (h : readStageMarker (c :: s) = some (stage, r)) : r = s := by
  unfold readStageMarker at h
  split at h
  · rename_i heq
    cases heq
    split at h
    · obtain ⟨_, -, he⟩ := Option.map_eq_some_iff.1 h
      exact (Prod.mk.inj he).2.symm
    · cases h
  · rename_i heq
    cases heq
    split at h
    · obtain ⟨_, -, he⟩ := Option.map_eq_some_iff.1 h
      exact (Prod.mk.inj he).2.symm
    · cases h
  · cases h

/-- **The markers and placeholders of texts put together** where a line starts outside block comments are
those of the texts, one after the other. -/
theorem stageMarkers_append {u : Text} (hu : StartsLine u) (hopen : openBehind u = false) (v : Text) :
    stageMarkers (u ++ v) = stageMarkers u ++ stageMarkers v := by
  refine items_append (complete_of_startsLine hu hopen v) eq_of_readStageMarker fun c s hs => ?_
  obtain ⟨x, rfl⟩ := hs
  obtain ⟨t, d, hd⟩ := (List.eq_nil_or_concat' (c :: s)).resolve_left (by simp)
  obtain rfl : d = '\n' := hu d (by simp [hd])
  rw [← List.cons_append]
  change (readStageMarker (c :: s ++ v)).map Prod.fst = (readStageMarker (c :: s)).map Prod.fst
  rw [hd, List.append_assoc, List.singleton_append, readStageMarker_append (endsLine_newline v),
    readStageMarker_append (endsLine_newline []), Option.map_map, Option.map_map]
  rfl

/-- A newline at the end of a text marks no stage. -/
theorem stageMarkers_append_newline (s : Text) : stageMarkers (s ++ ['\n']) = stageMarkers s :=
  filterMap_value?_pieces_append_newline (R := stageMarkerReader) (Q := stageMarkerReader)
    (readStageMarker_append (endsLine_newline [])) s

/-- **A text without `@` and `{` marks no stage** in front of another one. -/
theorem stageMarkers_append_of_notMem {u : Text} (hu : Complete u) (hat : '@' ∉ u) (hbrace : '{' ∉ u)
    (v : Text) : stageMarkers (u ++ v) = stageMarkers v := by
  refine items_append_of_unread (hu v) fun front c back hc => ?_
  have hmem : c ∈ u := mem_of_live_mem (s := u) (by rw [hc]; simp)
  change readStageMarker _ = none
  rw [readStageMarker]
  · rintro r heq
    exact hat ((List.cons.inj heq).1 ▸ hmem)
  · rintro r heq
    exact hbrace ((List.cons.inj heq).1 ▸ hmem)

end ShaderWeave
