import Mathlib.Data.List.DropRight
import ShaderWeave.Text.Basic

set_option autoImplicit false

/-!
# Trimming

Trimming takes the spaces from both ends of a text and nothing else. What is left is *trimmed*: it
neither starts nor ends with a space, and trimming leaves it as it is.

## Main definitions

* `ShaderWeave.Text.isTrimmed` — a text without spaces at its ends.

## Main results

* `ShaderWeave.Text.trimStart_trimEnd` — the ends of a text are trimmed in either order.
* `ShaderWeave.Text.exists_trim` — a text is its trimmed part between spaces.
* `ShaderWeave.Text.trim_eq_of_isTrimmed` — a trimmed text between spaces is what trimming gives.
-/

namespace ShaderWeave

namespace Text

/-- **Whether a text is trimmed**: no space stands at its start or at its end. -/
def isTrimmed (s : Text) : Bool :=
  !s.head?.any isSpace && !s.getLast?.any isSpace

/-- A text is trimmed if and only if neither its first nor its last character is a space. -/
theorem isTrimmed_iff {s : Text} :
    isTrimmed s = true ↔
      (∀ c ∈ s.head?, isSpace c = false) ∧ ∀ c ∈ s.getLast?, isSpace c = false := by
  unfold isTrimmed
  cases s.head? <;> cases s.getLast? <;> simp

/-- A text between two characters that are no spaces is trimmed. -/
theorem isTrimmed_between {c d : Char} (hc : isSpace c = false) (hd : isSpace d = false)
    (u : Text) : isTrimmed (c :: (u ++ [d])) = true := by
  refine isTrimmed_iff.2 ⟨?_, ?_⟩
  · simp [hc]
  · rw [← List.cons_append, List.getLast?_concat]
    simp [hd]

/-- Spaces at the start of a text go with the trimming. -/
theorem trimStart_append {u : Text} (h : u.all isSpace = true) (s : Text) :
    trimStart (u ++ s) = trimStart s :=
  List.dropWhile_append_of_pos (List.all_eq_true.1 h)

/-- Spaces at the end of a text go with the trimming. -/
theorem trimEnd_append {v : Text} (h : v.all isSpace = true) (s : Text) :
    trimEnd (s ++ v) = trimEnd s := by
  rw [trimEnd, List.reverse_append, List.dropWhile_append_of_pos, trimEnd]
  intro c hc
  exact List.all_eq_true.1 h c (List.mem_reverse.1 hc)

/-- A text without a space at its start loses nothing there. -/
theorem trimStart_eq_self {s : Text} (h : ∀ c ∈ s.head?, isSpace c = false) : trimStart s = s := by
  cases s with
  | nil => rfl
  | cons c s => exact List.dropWhile_cons_of_neg (by simp [h c rfl])

/-- A text without a space at its end loses nothing there. -/
theorem trimEnd_eq_self {s : Text} (h : ∀ c ∈ s.getLast?, isSpace c = false) : trimEnd s = s := by
  refine List.rdropWhile_eq_self_iff.2 fun hs => ?_
  simp [h (s.getLast hs) (List.getLast?_eq_some_getLast hs)]

/-- A character that is no space is not trimmed, and nothing before it is. -/
theorem trimEnd_cons_of_not_all {c : Char} {s : Text} (h : (c :: s).all isSpace = false) :
    trimEnd (c :: s) = c :: trimEnd s := by
  rw [trimEnd, trimEnd, List.reverse_cons, List.dropWhile_append]
  split
  · rename_i hnil
    have hs : s.all isSpace = true := by
      rw [List.isEmpty_iff, List.dropWhile_eq_nil_iff] at hnil
      exact List.all_eq_true.2 fun d hd => hnil d (List.mem_reverse.2 hd)
    have hc : isSpace c = false := by simpa [hs] using h
    rw [List.isEmpty_iff.1 hnil, List.dropWhile_cons_of_neg (by simp [hc])]
    rfl
  · rw [List.reverse_append]
    rfl

/-- Nothing is left of a text of spaces, trimmed at the end. -/
theorem trimEnd_of_all {s : Text} (h : s.all isSpace = true) : trimEnd s = [] := by
  rw [← List.nil_append s, trimEnd_append h]
  rfl

/-- Nothing is left of a text of spaces, trimmed at the start. -/
theorem trimStart_of_all {s : Text} (h : s.all isSpace = true) : trimStart s = [] :=
  List.dropWhile_eq_nil_iff.2 (List.all_eq_true.1 h)

/-- A space at the start goes with the trimming. -/
theorem trimStart_cons_of_space {c : Char} (h : isSpace c = true) (s : Text) :
    trimStart (c :: s) = trimStart s :=
  List.dropWhile_cons_of_pos h

/-- The ends of a text are trimmed in either order. -/
theorem trimStart_trimEnd (s : Text) : trimStart (trimEnd s) = trimEnd (trimStart s) := by
  induction s with
  | nil => rfl
  | cons c s ih =>
    cases hall : (c :: s).all isSpace with
    | true =>
      rw [trimEnd_of_all hall, trimStart_of_all hall]
      rfl
    | false =>
      rw [trimEnd_cons_of_not_all hall]
      cases hc : isSpace c with
      | true => rw [trimStart_cons_of_space hc, trimStart_cons_of_space hc, ih]
      | false =>
        have hhead : ∀ t : Text, ∀ d ∈ (c :: t).head?, isSpace d = false := by
          intro t d hd
          cases hd
          exact hc
        rw [trimStart_eq_self (hhead _), trimStart_eq_self (hhead _),
          trimEnd_cons_of_not_all hall]

/-- What is left at the start of a text is no space. -/
theorem head?_trimStart {s : Text} : ∀ c ∈ (trimStart s).head?, isSpace c = false := by
  intro c hc
  have := List.head?_dropWhile_not isSpace s
  rw [show (s.dropWhile isSpace).head? = some c from hc] at this
  simpa using this

/-- What is left at the end of a text is no space. -/
theorem getLast?_trimEnd {s : Text} : ∀ c ∈ (trimEnd s).getLast?, isSpace c = false := by
  intro c hc
  rw [trimEnd, List.getLast?_reverse] at hc
  exact head?_trimStart (s := s.reverse) c hc

/-- Trimming the end keeps the start, if anything is left. -/
theorem trimEnd_prefix (s : Text) : trimEnd s <+: s :=
  List.rdropWhile_prefix isSpace s

/-- **What trimming gives is trimmed.** -/
theorem isTrimmed_trim (s : Text) : isTrimmed (trim s) = true := by
  refine isTrimmed_iff.2 ⟨fun c hc => ?_, getLast?_trimEnd⟩
  refine head?_trimStart (s := s) c ?_
  obtain ⟨v, hv⟩ := trimEnd_prefix (trimStart s)
  rw [trim] at hc
  rw [← hv, List.head?_append, Option.mem_def.1 hc]
  rfl

/-- **A text is its trimmed part between spaces.** -/
theorem exists_trim (s : Text) :
    ∃ u v, u.all isSpace = true ∧ v.all isSpace = true ∧ s = u ++ (trim s ++ v) := by
  refine ⟨s.takeWhile isSpace, (trimStart s).rtakeWhile isSpace, ?_, ?_, ?_⟩
  · exact List.all_takeWhile
  · exact List.all_eq_true.2 fun c hc => List.mem_rtakeWhile_imp hc
  · have hend : trim s ++ (trimStart s).rtakeWhile isSpace = trimStart s :=
      List.rdropWhile_append_rtakeWhile
    rw [hend]
    exact List.takeWhile_append_dropWhile.symm

/-- **A trimmed text between spaces** is what trimming gives. -/
theorem trim_eq_of_isTrimmed {t : Text} (h : isTrimmed t = true) {u v : Text}
    (hu : u.all isSpace = true) (hv : v.all isSpace = true) : trim (u ++ (t ++ v)) = t := by
  obtain ⟨hhead, hlast⟩ := isTrimmed_iff.1 h
  rw [trim, trimStart_append hu]
  cases t with
  | nil =>
    rw [List.nil_append, show v = v ++ [] by simp, trimStart_append hv]
    rfl
  | cons c t =>
    rw [trimStart_eq_self (fun d hd => hhead d (by simpa using hd)), trimEnd_append hv,
      trimEnd_eq_self hlast]

/-- A trimmed text stays as it is. -/
theorem trim_eq_self {t : Text} (h : isTrimmed t = true) : trim t = t := by
  have := trim_eq_of_isTrimmed (u := []) (v := []) h rfl rfl
  rwa [List.nil_append, List.append_nil] at this

/-- Trimming twice is trimming once. -/
@[simp] theorem trim_trim (s : Text) : trim (trim s) = trim s :=
  trim_eq_self (isTrimmed_trim s)

/-- Spaces at the end do not count. -/
theorem trim_append_spaces (s : Text) {v : Text} (hv : v.all isSpace = true) :
    trim (s ++ v) = trim s := by
  obtain ⟨u, w, hu, hw, hs⟩ := exists_trim s
  have h := trim_eq_of_isTrimmed (isTrimmed_trim s) hu
    (show (w ++ v).all isSpace = true by rw [List.all_append, hw, hv]; rfl)
  rwa [← List.append_assoc, ← List.append_assoc, List.append_assoc u, ← hs] at h

/-- Spaces at the start do not count. -/
theorem trim_spaces_append {u : Text} (hu : u.all isSpace = true) (s : Text) :
    trim (u ++ s) = trim s := by
  rw [trim, trim, trimStart_append hu]

/-- Nothing is left exactly of texts of spaces. -/
theorem trim_eq_nil_iff {s : Text} : trim s = [] ↔ s.all isSpace = true := by
  constructor
  · intro h
    obtain ⟨u, v, hu, hv, hs⟩ := exists_trim s
    rw [hs, h, List.nil_append, List.all_append, hu, hv]
    rfl
  · intro h
    have := trim_eq_of_isTrimmed (t := []) rfl h (v := []) rfl
    rwa [List.nil_append, List.append_nil] at this

/-! ### Spaces and other characters -/

/-- Whether no character of a text is a space. -/
def isSpaceless (u : Text) : Bool :=
  u.all (!isSpace ·)

/-- A text without spaces has no space among its characters. -/
theorem isSpace_of_isSpaceless {u : Text} (hu : isSpaceless u = true) {c : Char} (hc : c ∈ u) :
    isSpace c = false := by
  simpa using List.all_eq_true.1 hu c hc

/-- A text of spaces has no character that is none. -/
theorem notMem_of_all_isSpace {u : Text} (hu : u.all isSpace = true) {c : Char}
    (hc : isSpace c = false) : c ∉ u := fun hmem => by
  rw [List.all_eq_true.1 hu c hmem] at hc
  cases hc

/-- Spaces do not start with a character that is none. -/
theorem eq_nil_of_cons_eq_append {c : Char} (hc : isSpace c = false) {s a y : Text}
    (ha : a.all isSpace = true) (h : c :: s = a ++ y) : a = [] := by
  cases a with
  | nil => rfl
  | cons d a =>
    cases h
    exact absurd List.mem_cons_self (notMem_of_all_isSpace ha hc)

/-- Spaces do not end in a character that is none. -/
theorem eq_nil_of_concat_eq_append {c : Char} (hc : isSpace c = false) {s y b : Text}
    (hb : b.all isSpace = true) (h : s ++ [c] = y ++ b) : b = [] := by
  rcases List.eq_nil_or_concat b with rfl | ⟨b, d, rfl⟩
  · rfl
  · have hd : c = d := by
      have := congrArg List.getLast? h
      simpa using this
    exact absurd (by simp [hd]) (notMem_of_all_isSpace hb hc)

end Text

end ShaderWeave
