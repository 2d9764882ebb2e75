import Mathlib.Data.List.Basic
import ShaderWeave.Proofs.Text.Trim

set_option autoImplicit false

/-!
# Lines

A text and its lines determine each other: the lines are the only way to cut the text behind each of
its newlines.

## Main definitions

* `ShaderWeave.Text.IsLines` — lines, each with the newline that ends it; the last one may have none.
* `ShaderWeave.Text.terminate` — a line with a newline at its end.

## Main results

* `ShaderWeave.Text.flatten_lines` — the lines of a text, put together, are the text.
* `ShaderWeave.Text.isLines_lines`, `ShaderWeave.Text.lines_flatten` — the lines of a text are lines,
  and lines are those of the text that they make up.
-/

namespace ShaderWeave

namespace Text

/-- **Lines**, each with the newline that ends it. The last one may have none, but is not empty. -/
inductive IsLines : List Text → Prop where
  | nil : IsLines []
  | last {u : Text} (hne : u ≠ []) (h : '\n' ∉ u) : IsLines [u]
  | cons {u : Text} {ls : List Text} (h : '\n' ∉ u) (hls : IsLines ls) :
      IsLines ((u ++ ['\n']) :: ls)

/-- **The lines of a text, put together, are the text.** -/
theorem flatten_lines (s : Text) : (lines s).flatten = s := by
  induction s with
  | nil => rfl
  | cons c s ih =>
    rw [lines]
    split
    · rw [List.flatten_cons, ih, List.singleton_append]
    · cases hl : lines s with
      | nil =>
        rw [hl] at ih
        rw [← ih]
        rfl
      | cons l ls =>
        rw [hl] at ih
        simp only [List.flatten_cons, List.cons_append] at ih ⊢
        rw [ih]

/-- **The lines of a text are lines.** -/
theorem isLines_lines (s : Text) : IsLines (lines s) := by
  induction s with
  | nil => exact .nil
  | cons c s ih =>
    rw [lines]
    split
    · rename_i hc
      rw [hc]
      exact .cons (u := []) (by simp) ih
    · rename_i hc
      generalize lines s = ls at ih
      cases ih with
      | nil => exact .last (by simp) (by simpa using Ne.symm hc)
      | last hne h => exact .last (by simp) (by simp [Ne.symm hc, h])
      | @cons u ls h hls =>
        simp only [← List.cons_append]
        exact .cons (u := c :: u) (by simp [Ne.symm hc, h]) hls

/-- A line without a newline is a line of its own. -/
theorem lines_of_notMem {u : Text} (hne : u ≠ []) (h : '\n' ∉ u) : lines u = [u] := by
  induction u with
  | nil => exact absurd rfl hne
  | cons c u ih =>
    rw [List.mem_cons, not_or] at h
    rw [lines, if_neg (Ne.symm h.1)]
    cases u with
    | nil => rfl
    | cons d u => rw [ih (by simp) h.2]

/-- The text up to its first newline is its first line. -/
theorem lines_append_newline {u : Text} (h : '\n' ∉ u) (s : Text) :
    lines (u ++ '\n' :: s) = (u ++ ['\n']) :: lines s := by
  induction u with
  | nil => rfl
  | cons c u ih =>
    rw [List.mem_cons, not_or] at h
    rw [List.cons_append, lines, if_neg (Ne.symm h.1), ih h.2]
    rfl

/-- **Lines are the lines of the text that they make up.** -/
theorem lines_flatten {ls : List Text} (h : IsLines ls) : lines ls.flatten = ls := by
  induction h with
  | nil => rfl
  | last hne h => simpa using lines_of_notMem hne h
  | cons h _ ih =>
    rw [List.flatten_cons, List.append_assoc, List.singleton_append, lines_append_newline h, ih]

/-! ### Lines with newlines at their ends -/

/-- **A line with a newline at its end**, which is added if it is missing. -/
def terminate (l : Text) : Text :=
  if l.getLast? = some '\n' then l else l ++ ['\n']

/-- A line with its newline stays as it is. -/
theorem terminate_append_newline (u : Text) : terminate (u ++ ['\n']) = u ++ ['\n'] := by
  simp [terminate]

/-- A line without a newline gets one. -/
theorem terminate_of_notMem {u : Text} (h : '\n' ∉ u) : terminate u = u ++ ['\n'] := by
  rw [terminate, if_neg]
  exact fun hlast => h (List.mem_of_getLast? hlast)

/-- Further lines may follow terminated ones. -/
theorem IsLines.terminate_append {ls ms : List Text} (hl : IsLines ls) (hm : IsLines ms) :
    IsLines (ls.map terminate ++ ms) := by
  induction hl with
  | nil => exact hm
  | last _ h =>
    rw [List.map_singleton, terminate_of_notMem h]
    exact .cons h hm
  | cons h _ ih =>
    rw [List.map_cons, terminate_append_newline]
    exact .cons h ih

/-- Termination adds a newline to a text that does not end in one. -/
theorem flatten_map_terminate {ls : List Text} (h : IsLines ls) :
    (ls.map terminate).flatten = ls.flatten ++
      if ls.flatten = [] ∨ ls.flatten.getLast? = some '\n' then [] else ['\n'] := by
  induction h with
  | nil => rfl
  | @last u hne h =>
    have hlast : u.getLast? ≠ some '\n' := fun hlast => h (List.mem_of_getLast? hlast)
    simp [terminate_of_notMem h, hne, hlast]
  | @cons u ls h _ ih =>
    rw [List.map_cons, terminate_append_newline, List.flatten_cons, ih, List.flatten_cons]
    rcases List.eq_nil_or_concat ls.flatten with hnil | ⟨t, c, ht⟩
    · simp [hnil]
    · simp [ht, List.getLast?_cons]

/-- Lines at the start of others are lines, as are those behind them. -/
theorem IsLines.of_append {ls ms : List Text} (h : IsLines (ls ++ ms)) :
    IsLines ls ∧ IsLines ms := by
  induction ls with
  | nil => exact ⟨.nil, h⟩
  | cons l ls ih =>
    rw [List.cons_append] at h
    generalize hall : ls ++ ms = all at h
    cases h with
    | last hne hl =>
      obtain ⟨rfl, rfl⟩ := List.append_eq_nil_iff.1 hall
      exact ⟨.last hne hl, .nil⟩
    | cons hl hls =>
      subst hall
      exact ⟨.cons hl (ih hls).1, (ih hls).2⟩

/-- Lines behind the first one of lines are lines. -/
theorem IsLines.of_cons {l : Text} {ls : List Text} (h : IsLines (l :: ls)) : IsLines ls :=
  (show IsLines ([l] ++ ls) from h).of_append.2

/-- A line has no newline but at its end. -/
theorem IsLines.newline_notMem_dropLast {ls : List Text} (hls : IsLines ls) {l : Text} (hl : l ∈ ls) :
    '\n' ∉ l.dropLast := by
  induction hls with
  | nil => cases hl
  | last _ h =>
    obtain rfl := List.mem_singleton.1 hl
    exact fun hmem => h (List.dropLast_subset _ hmem)
  | @cons u ls h _ ih =>
    rcases List.mem_cons.1 hl with rfl | hl
    · rwa [List.dropLast_concat]
    · exact ih hl

/-- A line is a text of one line. -/
theorem IsLines.lines_of_mem {ls : List Text} (hls : IsLines ls) {l : Text} (hl : l ∈ ls) :
    lines l = [l] := by
  induction hls with
  | nil => cases hl
  | last hne h =>
    obtain rfl := List.mem_singleton.1 hl
    exact lines_of_notMem hne h
  | cons h _ ih =>
    rcases List.mem_cons.1 hl with rfl | hl
    · rw [lines_append_newline h]
      rfl
    · exact ih hl

/-! ### Trimmed lines -/

/-- Trimming a text without a newline puts none in. -/
theorem newline_notMem_trim {u : Text} (h : '\n' ∉ u) : '\n' ∉ trim u := by
  obtain ⟨x, y, -, -, hu⟩ := exists_trim u
  intro hmem
  refine h ?_
  rw [hu]
  simp [hmem]

/-- The trimmed part of a line has no newline. -/
theorem newline_notMem_trim_of_mem {ls : List Text} (hls : IsLines ls) {l : Text} (hl : l ∈ ls) :
    '\n' ∉ trim l := by
  induction hls with
  | nil => cases hl
  | last _ h =>
    obtain rfl := List.mem_singleton.1 hl
    exact newline_notMem_trim h
  | @cons u ls h _ ih =>
    rcases List.mem_cons.1 hl with rfl | hl
    · rw [trim_append_spaces u (by decide)]
      exact newline_notMem_trim h
    · exact ih hl

/-- A trimmed line of a text has no newline. -/
theorem newline_notMem_trim_lines (s : Text) : ∀ l ∈ lines s, '\n' ∉ trim l :=
  fun _ hl => newline_notMem_trim_of_mem (isLines_lines s) hl

end Text

end ShaderWeave
