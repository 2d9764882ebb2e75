import ShaderWeave.Chunk.Basic
import ShaderWeave.Proofs.Composition.LastNewline
import ShaderWeave.Proofs.Include.Stretches
import ShaderWeave.Proofs.Scan.Pieces

set_option autoImplicit false

/-!
# A newline at the end of a template

A newline at the end of a chunk template is of no consequence: the template has the same content and
includes the same names without it. Its last line may be a comment or a directive that ends where the
template ends.

## Main results

* `ShaderWeave.ChunkContent.parse_append_newline` — the content is the same without the newline.
* `ShaderWeave.Include.includeNames_append_newline` — so are the names that are included.
-/

namespace ShaderWeave

open Text Scan

/-! ### Double blocks and arguments -/

namespace Scan

/-- The newline is behind the closing braces. -/
theorem cutAtDouble?_append_newline (d : Nat) (s : Text) :
    cutAtDouble? d (s ++ ['\n']) = (cutAtDouble? d s).map fun p => (p.1, p.2 ++ ['\n']) := by
  have hnil : ∀ d, cutAtDouble? d [] = none := fun d => by rw [cutAtDouble?]
  fun_induction lexemes s generalizing d with
  | case1 =>
    rw [List.nil_append, cutAtDouble?_of_live (comment?_cons_eq_none (by decide) []), hnil]
    simp [hnil]
  | case2 c s t r h ih =>
    rw [cutAtDouble?_of_comment? h]
    rcases comment?_append_newline h with h' | ⟨rfl, h'⟩
    · rw [cutAtDouble?_of_comment? h', ih]
      simp [Function.comp_def]
    · rw [cutAtDouble?_of_comment? h', hnil]
      rfl
  | case3 c s h ih =>
    have hhead : (s ++ ['\n']).head? = some '}' ↔ s.head? = some '}' := by cases s <;> simp
    rw [cutAtDouble?_of_live h, List.cons_append,
      cutAtDouble?_of_live (comment?_append_newline_of_none h), ih, ih]
    simp only [hhead]
    split
    · simp [Function.comp_def]
    · split
      · rename_i hclose
        cases s with
        | nil => cases hclose.2.2
        | cons c s => rfl
      · simp [Function.comp_def]

/-- A newline at the end of the text stays behind a block in double braces. -/
theorem doubleBlock?_append_newline (s : Text) :
    doubleBlock? (s ++ ['\n']) =
      (doubleBlock? s).map (Option.map fun p => (p.1, p.2 ++ ['\n'])) := by
  rcases s with _ | ⟨c, _ | ⟨d, s⟩⟩
  · rfl
  · by_cases hc : c = '{'
    · subst hc
      rfl
    · rw [List.cons_append, doubleBlock?.eq_2 _ fun t h => hc (List.cons.inj h).1,
        doubleBlock?.eq_2 _ fun t h => hc (List.cons.inj h).1]
      rfl
  · by_cases hopen : c = '{' ∧ d = '{'
    · obtain ⟨rfl, rfl⟩ := hopen
      exact congrArg some (cutAtDouble?_append_newline 0 s)
    · have hnone : ∀ t : Text, doubleBlock? (c :: d :: t) = none := fun t =>
        doubleBlock?.eq_2 _ fun r h => hopen
          ⟨(List.cons.inj h).1, (List.cons.inj (List.cons.inj h).2).1⟩
      rw [List.cons_append, List.cons_append, hnone, hnone]
      rfl

/-- A newline at the end of the text stays behind an argument in parentheses. -/
theorem parenthesized?_append_newline (s : Text) :
    parenthesized? (s ++ ['\n']) = (parenthesized? s).map fun p => (p.1, p.2 ++ ['\n']) := by
  refine Option.ext fun ⟨a, r⟩ => ?_
  rw [Option.map_eq_some_iff]
  constructor
  · intro h
    obtain ⟨u, hu, rfl, hs⟩ := exists_of_parenthesized? h
    rcases List.eq_nil_or_concat r with rfl | ⟨r, d, rfl⟩
    · have hs : s ++ ['\n'] = '(' :: u ++ [')'] := by simpa using hs
      cases (List.append_inj' hs rfl).2
    · have hs : s ++ ['\n'] = '(' :: (u ++ ')' :: r) ++ [d] := by simpa using hs
      obtain ⟨rfl, hd⟩ := List.append_inj' hs rfl
      cases hd
      exact ⟨_, parenthesized?_append hu r, by simp⟩
  · rintro ⟨⟨b, q⟩, hb, he⟩
    obtain ⟨u, hu, rfl, rfl⟩ := exists_of_parenthesized? hb
    cases he
    have := parenthesized?_append hu (q ++ ['\n'])
    simpa using this

end Scan

/-! ### The parts of a template -/

namespace ChunkPart

/-- The head of a stage block has the newline behind it, if anything is left. -/
theorem readHead_append_newline (s : Text) :
    readHead (s ++ ['\n']) =
      (readHead s).map fun p => (p.1, p.2.1, if p.2.2 = [] then [] else p.2.2 ++ ['\n']) := by
  cases s with
  | nil => rfl
  | cons c s =>
    by_cases hc : c = '@'
    · subst hc
      rw [List.cons_append, readHead, readHead, word?_append_newline]
      cases word? s with
      | none => rfl
      | some p =>
        obtain ⟨name, r⟩ := p
        simp only [Option.map_some]
        cases Stage.ofName? name with
        | none => rfl
        | some stage =>
          simp only [skipBlanks_append_newline]
          cases hskip : skipBlanks r with
          | nil => rfl
          | cons d t =>
            rw [if_neg (by simp), List.cons_append]
            by_cases hd : d = '('
            · subst hd
              have hargument := parenthesized?_append_newline ('(' :: t)
              rw [List.cons_append] at hargument
              simp only [hargument]
              cases parenthesized? ('(' :: t) with
              | none => rfl
              | some p => simp [skipBlanks_append_newline]
            · split
              · rename_i heq
                exact absurd (List.cons.inj heq).1 hd
              · split
                · rename_i heq
                  exact absurd (List.cons.inj heq).1 hd
                · simp
    · rw [List.cons_append, readHead.eq_2 _ fun t h => hc (List.cons.inj h).1,
        readHead.eq_2 _ fun t h => hc (List.cons.inj h).1]
      rfl

/-- **A part is one with the newline at the end or without it.** -/
theorem read_append_newline (n : Nat) (s : Text) :
    read (n + 1) (s ++ ['\n']) = (read n s).map fun p => (p.1, p.2 ++ ['\n']) := by
  rw [read, read, readHead_append_newline]
  cases hhead : readHead s with
  | none => rfl
  | some p =>
    obtain ⟨stage, rule, r⟩ := p
    obtain ⟨t, rfl, -⟩ := readHead_suffix hhead
    have hblock : doubleBlock? (if r = [] then [] else r ++ ['\n']) =
        (doubleBlock? r).map (Option.map fun p => (p.1, p.2 ++ ['\n'])) := by
      split
      · rename_i h
        rw [h]
        rfl
      · exact doubleBlock?_append_newline r
    simp only [Option.map_some, hblock]
    cases doubleBlock? r with
    | none => rfl
    | some b =>
      cases b with
      | none =>
        have hoffset : n + 1 - byteSize ('@' :: t ++ ['\n']) = n - byteSize ('@' :: t) := by
          rw [byteSize_append]
          exact Nat.add_sub_add_right ..
        simp only [Option.map_some, Option.map_none, hoffset]
        rfl
      | some b => rfl

end ChunkPart

/-- **A newline at the end of a template is no part of its content.** -/
theorem ChunkContent.parse_append_newline (s : Text) : parse (s ++ ['\n']) = parse s := by
  have hread := ChunkPart.read_append_newline (byteSize s)
  have hvalues := filterMap_value?_pieces_append_newline (R := ChunkPart.reader (byteSize s))
    (Q := ChunkPart.reader (byteSize s + 1)) hread s
  have hshared := flatMap_pieces_append_newline (R := ChunkPart.reader (byteSize s))
    (Q := ChunkPart.reader (byteSize s + 1)) hread (f := sharedText) (fun _ => rfl) (fun _ => rfl) s
  have hsize : byteSize (s ++ ['\n']) = byteSize s + 1 := by
    rw [byteSize_append]
    rfl
  rw [parse, parse, hsize]
  simp only [hvalues, hshared, trim_append_spaces _ (show ['\n'].all isSpace = true by decide)]

/-! ### Directives -/

namespace Include

/-- **A newline at the end of a text includes nothing.** -/
theorem includeNames_append_newline (s : Text) : includeNames (s ++ ['\n']) = includeNames s := by
  obtain ⟨u, hs, hstarts, hlast⟩ := exists_append_lastLine s
  generalize lastLine s = l at hs hlast
  subst hs
  have hname : name? (l ++ ['\n']) = name? l := name?_congr (trim_append_spaces l (by decide))
  have hlines : lines (l ++ ['\n']) = [l ++ ['\n']] := by
    have := lines_append_newline hlast []
    simpa [lines] using this
  rw [includeNames, includeNames, List.append_assoc, directives, directives, lines_append hstarts,
    lines_append hstarts, directivesFrom_append, directivesFrom_append, List.filterMap_append,
    List.filterMap_append, hlines, directivesFrom, hname]
  rcases eq_or_ne l [] with rfl | hne
  · rw [name?_nil]
    simp [lines, directivesFrom]
  · rw [lines_of_notMem hne hlast, directivesFrom]
    rfl

end Include

end ShaderWeave
