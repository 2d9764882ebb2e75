import ShaderWeave.Proofs.Conditional.Markup

set_option autoImplicit false

/-!
# Expansion of markup

The expansion of a text scans it from left to right: it steps over comments, reads a conditional
where one starts, and expands the chosen body on its own. On the text of a tree of markup this gives
the value of the tree, and expanding that value once more leaves it as it is.

## Main definitions

* `ShaderWeave.Inert` — a text that expansion leaves as it is, whatever follows.

## Main results

* `ShaderWeave.Conditional.read_ifHead` — what is read behind the head of a conditional.
* `ShaderWeave.Markup.inert_eval` — the value of a tree is inert.
* `ShaderWeave.Markup.expand_parseFrom_render` — the expansion of the text of a tree, with what
  follows it.
* `ShaderWeave.Markup.expandConditionals_render` — the expansion of the text of a tree is its value.

## Implementation notes

A tree is not only expanded as a whole text but also inside a scope, where the closing brace of the
scope and more of the text follow. So the main induction is over trees with a text that follows
them. What follows is nothing or starts with a brace: this keeps the last conditional of a body from
finding an `else` behind the body.
-/

namespace ShaderWeave

open Text Scan

/-! ### Reading a conditional -/

namespace Conditional

/-- There is no conditional where `#if` does not stand. -/
theorem read_eq_none {s : Text} (h : after? ['#', 'i', 'f'] s = none) : read s = none := by
  rw [read, show "#if".toList = ['#', 'i', 'f'] from rfl, h]

/-- Blanks before a block are no part of a word. -/
theorem head?_pad {pad : Text} (h : pad.all isBlank = true) (u s : Text) :
    (pad ++ (braced u ++ s)).head?.any isWordChar = false := by
  cases pad with
  | nil => simp [braced, isWordChar]
  | cons c pad =>
    have hc : isBlank c = true := List.all_eq_true.1 h c List.mem_cons_self
    simp [isWordChar_eq_false_of_isBlank hc]

/-- Behind blanks the block comes first. -/
theorem skipBlanks_pad {pad : Text} (h : pad.all isBlank = true) (u s : Text) :
    skipBlanks (pad ++ (braced u ++ s)) = '{' :: (u ++ '}' :: s) := by
  rw [skipBlanks_append h]
  simp [braced, skipBlanks_cons (show isBlank '{' = false by decide)]

/-- A well-braced text between braces is a block. -/
theorem block?_cons {u : Text} (hu : WellBraced u) (s : Text) :
    block? ('{' :: (u ++ '}' :: s)) = some (u, s) := by
  simpa [braced] using hu.block? s

/-- **The head of a conditional is read up to its block.** What follows the block decides about an
alternative. -/
theorem read_ifHead (h : IfHead) {u : Text} (hu : WellBraced u) (s : Text) :
    read (h.text ++ (braced u ++ s)) =
      match readElse s with
      | none => some (.ok (⟨.ofList h.flag, u, [], false⟩, s))
      | some none => some (.ok (⟨.ofList h.flag, u, [], true⟩, s))
      | some (some (alt, r)) => some (.ok (⟨.ofList h.flag, u, alt, false⟩, r)) := by
  obtain ⟨b, gap, hgap⟩ := List.exists_cons_of_ne_nil h.gap_ne_nil
  obtain ⟨w, flag, hflag⟩ := List.exists_cons_of_ne_nil h.flag_ne_nil
  have hb : isBlank b = true := List.all_eq_true.1 h.gap_blank b (by simp [hgap])
  have hw : isBlank w = false := by
    refine isBlank_eq_false_of_isWordChar (List.all_eq_true.1 h.flag_word w ?_)
    simp [hflag]
  have hfirst : (h.gap ++ (h.flag ++ (h.pad ++ (braced u ++ s)))).head?.any isBlank = true := by
    simp [hgap, hb]
  have hskip : skipBlanks (h.gap ++ (h.flag ++ (h.pad ++ (braced u ++ s)))) =
      h.flag ++ (h.pad ++ (braced u ++ s)) := by
    rw [skipBlanks_append h.gap_blank, hflag, List.cons_append, skipBlanks_cons hw]
  have hword : word? (h.flag ++ (h.pad ++ (braced u ++ s))) =
      some (h.flag, h.pad ++ (braced u ++ s)) :=
    word?_append h.flag_ne_nil h.flag_word (head?_pad h.pad_blank u s)
  rcases helse : readElse s with _ | _ | ⟨alt, r⟩ <;>
    simp only [IfHead.text, List.append_assoc, read, after?_append, hfirst, ↓reduceIte, hskip, hword,
      skipBlanks_pad h.pad_blank, block?_cons hu, helse]

/-- There is no alternative where the word `else` does not come first. -/
theorem readElse_eq_none {s : Text} (h : Markup.startsWithElse s = false) : readElse s = none := by
  rw [Markup.startsWithElse, Option.isSome_eq_false_iff, Option.isNone_iff_eq_none] at h
  rw [readElse, h]

/-- An `else` with its block is read as an alternative. -/
theorem readElse_elseHead (h : ElseHead) {u : Text} (hu : WellBraced u) (s : Text) :
    readElse (h.text ++ (braced u ++ s)) = some (some (u, s)) := by
  have hskip : skipBlanks (h.gap ++ ("else".toList ++ (h.pad ++ (braced u ++ s)))) =
      "else".toList ++ (h.pad ++ (braced u ++ s)) := by
    rw [skipBlanks_append h.gap_blank]
    exact skipBlanks_cons (by decide) _
  simp only [ElseHead.text, List.append_assoc, readElse, hskip, after?_append,
    head?_pad h.pad_blank, Bool.false_eq_true, ↓reduceIte, skipBlanks_pad h.pad_blank,
    block?_cons hu]

end Conditional

/-! ### One step of the scan -/

namespace Template

/-- The empty text denotes the empty template. -/
theorem parseFrom_nil (n : Nat) : parseFrom n [] = .done := by
  rw [parseFrom]

/-- A comment is text of the template, whatever it has in it. -/
theorem parseFrom_of_comment {n : Nat} {s t r : Text} (h : comment? s = some (t, r)) :
    parseFrom n s = .text t (parseFrom n r) := by
  cases s with
  | nil => simp [comment?] at h
  | cons c s =>
    rw [parseFrom]
    split <;> simp_all

/-- A character at which neither a comment nor a conditional starts is text of the template. -/
theorem parseFrom_of_plain {n : Nat} {c : Char} {s : Text} (hc : comment? (c :: s) = none)
    (hr : Conditional.read (c :: s) = none) :
    parseFrom n (c :: s) = .text [c] (parseFrom n s) := by
  rw [parseFrom]
  split
  · simp_all
  · split <;> simp_all

/-- A conditional whose alternative is closed denotes its two branches, which are templates themselves. -/
theorem parseFrom_of_read {n : Nat} {s r : Text} {b : Conditional} (hc : comment? s = none)
    (hr : Conditional.read s = some (.ok (b, r))) (hb : b.elseUnclosed = false) :
    parseFrom n s = .conditional b.flag (parseFrom (byteSize b.thenBody) b.thenBody)
      (parseFrom (byteSize b.elseBody) b.elseBody) (parseFrom n r) := by
  cases s with
  | nil => simp [Conditional.read, after?] at hr
  | cons c s =>
    rw [parseFrom]
    split
    · simp_all
    · split
      · simp_all
      · simp_all
      · rename_i b' r' hr'
        rw [hr] at hr'
        simp only [Option.some.injEq, Except.ok.injEq, Prod.mk.injEq] at hr'
        obtain ⟨rfl, rfl⟩ := hr'
        simp [hb]

end Template

/-- No comment starts at a conditional. -/
theorem comment?_ifHead (h : IfHead) (s : Text) : comment? (h.text ++ s) = none := by
  rw [IfHead.text, List.append_assoc, List.append_assoc]
  exact comment?_cons_eq_none (by decide) _

/-! ### Inert texts -/

/-- **An inert text**: expansion leaves it as it is, whatever follows. -/
def Inert (u : Text) : Prop :=
  ∀ (flags : Flags) (n : Nat) (s : Text),
    ((Template.parseFrom n (u ++ s)).expand flags) = u ++ (Template.parseFrom n s).expand flags

/-- The empty text is inert. -/
theorem inert_nil : Inert [] :=
  fun _ _ _ => rfl

/-- Inert texts in a row are inert. -/
theorem Inert.append {u v : Text} (hu : Inert u) (hv : Inert v) : Inert (u ++ v) := by
  intro flags n s
  rw [List.append_assoc, hu, hv, List.append_assoc]

/-- A character that starts neither a comment nor a conditional is inert. -/
theorem inert_singleton {c : Char} (hc : c ≠ '/') (hn : c ≠ '#') : Inert [c] := by
  intro flags n s
  have hr : Conditional.read (c :: s) = none :=
    Conditional.read_eq_none (by simp [after?, hn.symm])
  rw [List.singleton_append, Template.parseFrom_of_plain (comment?_cons_eq_none hc s) hr,
    Template.expand]

/-- A closed comment is inert. -/
theorem inert_closed (c : ClosedComment) : Inert c.text := by
  intro flags n s
  rw [Template.parseFrom_of_comment (comment?_closed c s), Template.expand]

/-- A text that is without comments and clear of `#if` is inert. -/
theorem inert_of_isUncommented {t : Text} (hc : isUncommented t = true)
    (hn : isClearOf ['#', 'i', 'f'] t = true) : Inert t := by
  intro flags n s
  induction t with
  | nil => rfl
  | cons c t ih =>
    have hc' := comment?_append_of_isUncommented hc (by simp) s
    have hr := Conditional.read_eq_none (after?_append_of_isClearOf hn (by simp) s)
    rw [List.cons_append] at hc' hr ⊢
    rw [Template.parseFrom_of_plain hc' hr, Template.expand,
      ih (isUncommented_of_cons hc) (isClearOf_of_cons hn)]
    rfl

/-- An inert text between braces is inert. -/
theorem Inert.braced {u : Text} (h : Inert u) : Inert (braced u) :=
  (inert_singleton (by decide) (by decide)).append
    (h.append (inert_singleton (by decide) (by decide)))

/-! ### Expansion of a tree -/

/-- The flag in the head of a conditional is enabled if the head holds. -/
theorem Flags.isEnabled_eq (flags : Flags) (h : IfHead) :
    flags.isEnabled (.ofList h.flag) = decide (h.Holds flags) := by
  rw [Flags.isEnabled]
  rcases hv : flags.get? (.ofList h.flag) with _ | v
  · simp [IfHead.Holds, hv]
  · cases v <;> simp [IfHead.Holds, hv, FlagValue.isTrue]

namespace Markup

/-- **The value of a tree is inert.** -/
theorem inert_eval (m : Markup) (flags : Flags) : Inert (m.eval flags) := by
  induction m with
  | done => exact inert_nil
  | plain t rest ih => exact (inert_of_isUncommented t.uncommented t.unconditional).append ih
  | comment c rest ih => exact (inert_closed c).append ih
  | scope body rest ihb ih => exact ihb.braced.append ih
  | when head body rest ihb ih =>
    refine Inert.append ?_ ih
    split
    · exact ihb
    · exact inert_nil
  | either head body mid alt rest ihb iha ih =>
    refine Inert.append ?_ ih
    split
    · exact ihb
    · exact iha

/-- What may follow the body of a scope: nothing, or the closing brace. -/
def Closes (s : Text) : Prop :=
  s = [] ∨ ∃ r, s = '}' :: r

/-- Where a text does not go on with `else`, it does not do so with a closing brace behind it. -/
theorem startsWithElse_append {u s : Text} (hu : startsWithElse u = false) (hs : Closes s) :
    startsWithElse (u ++ s) = false := by
  simp only [startsWithElse, Option.isSome_eq_false_iff, Option.isNone_iff_eq_none,
    after?_eq_none_iff] at hu ⊢
  rcases hs with rfl | ⟨r, rfl⟩
  · rwa [List.append_nil]
  · intro hp
    rw [skipBlanks, List.dropWhile_append] at hp
    split at hp
    · rw [List.dropWhile_cons_of_neg (by decide)] at hp
      exact absurd (List.cons_prefix_cons.1 hp).1 (by decide)
    · exact hu (prefix_of_prefix_append_cons (by decide) hp)

/-- **The expansion of the text of a tree with what follows it**: the value of the tree comes first,
and then the expansion of the rest.

**Proof sketch.** Induction on the tree. Plain text and comments are inert. The braces of a scope are
inert as well, and its body is followed by one of them. The head of a conditional is read with its
blocks, which are the texts of the bodies since these are well-braced; the bodies are expanded on
their own, with nothing behind them. -/
theorem expand_parseFrom_render (m : Markup) (hm : m.NoStrayElse) (flags : Flags) (n : Nat)
    {s : Text} (hs : Closes s) :
    (Template.parseFrom n (m.render ++ s)).expand flags =
      m.eval flags ++ (Template.parseFrom n s).expand flags := by
  induction m generalizing n s with
  | done => rfl
  | plain t rest ih =>
    rw [render, List.append_assoc, inert_of_isUncommented t.uncommented t.unconditional,
      ih hm n hs, eval, List.append_assoc]
  | comment c rest ih =>
    rw [render, List.append_assoc, inert_closed, ih hm n hs, eval, List.append_assoc]
  | scope body rest ihb ih =>
    have hopen := inert_singleton (c := '{') (by decide) (by decide)
    have hclose := inert_singleton (c := '}') (by decide) (by decide)
    calc (Template.parseFrom n (render (scope body rest) ++ s)).expand flags
        = (Template.parseFrom n (['{'] ++ (body.render ++ ('}' :: (rest.render ++ s))))).expand
            flags := by simp [render, braced]
      _ = '{' :: (body.eval flags ++
            (Template.parseFrom n (['}'] ++ (rest.render ++ s))).expand flags) := by
        rw [hopen, ihb hm.1 n (.inr ⟨_, rfl⟩)]
        rfl
      _ = eval flags (scope body rest) ++ (Template.parseFrom n s).expand flags := by
        rw [hclose, ih hm.2 n hs]
        simp [eval, braced]
  | when head body rest ihb ih =>
    have hread := Conditional.read_ifHead head (wellBraced_render body) (rest.render ++ s)
    -- the text behind the tree starts with no alternative, so there is none to be read
    rw [Conditional.readElse_eq_none (startsWithElse_append hm.2.1 hs)] at hread
    have hbody := ihb hm.1 (byteSize body.render) (.inl rfl)
    rw [Template.parseFrom_nil, Template.expand, List.append_nil, List.append_nil] at hbody
    rw [render, List.append_assoc, List.append_assoc,
      Template.parseFrom_of_read (comment?_ifHead head _) hread rfl, Template.expand, hbody,
      ih hm.2.2 n hs, Flags.isEnabled_eq, eval, Template.parseFrom_nil, Template.expand,
      List.append_assoc]
    simp only [decide_eq_true_eq]
  | either head body mid alt rest ihb iha ih =>
    have hread := Conditional.read_ifHead head (wellBraced_render body)
      (mid.text ++ (braced alt.render ++ (rest.render ++ s)))
    rw [Conditional.readElse_elseHead mid (wellBraced_render alt)] at hread
    have hbody := ihb hm.1 (byteSize body.render) (.inl rfl)
    have halt := iha hm.2.1 (byteSize alt.render) (.inl rfl)
    rw [Template.parseFrom_nil, Template.expand, List.append_nil, List.append_nil] at hbody halt
    rw [render, List.append_assoc, List.append_assoc, List.append_assoc, List.append_assoc,
      Template.parseFrom_of_read (comment?_ifHead head _) hread rfl, Template.expand, hbody, halt,
      ih hm.2.2 n hs, Flags.isEnabled_eq, eval, List.append_assoc]
    simp only [decide_eq_true_eq]

/-- **The expansion of the text of a tree is its value**, and another expansion, for the same flags or
for others, leaves that as it is. -/
theorem expandConditionals_render (m : Markup) (hm : m.NoStrayElse) (flags : Flags) :
    expandConditionals flags m.render = m.eval flags ∧
      ∀ flags', expandConditionals flags' (m.eval flags) = m.eval flags := by
  have hnil : ∀ (flags : Flags) (n : Nat), (Template.parseFrom n []).expand flags = [] := by
    intro flags n
    rw [Template.parseFrom_nil, Template.expand]
  constructor
  · have h := expand_parseFrom_render m hm flags (byteSize m.render) (.inl rfl)
    rwa [hnil, List.append_nil, List.append_nil] at h
  · intro flags'
    have h := inert_eval m flags flags' (byteSize (m.eval flags)) []
    rwa [hnil, List.append_nil] at h

/-- A scope with a conditional in it, whose body has a comment with a brace and a conditional with an
alternative. -/
def litScope : Markup :=
  .plain { text := "fn f() ".toList }
    (.scope
      (.when { gap := " ".toList, flag := "LIT".toList, pad := [] }
        (.comment (.line " \x7d".toList (by decide))
          (.either { gap := "\t".toList, flag := "FOG".toList, pad := " ".toList }
            (.plain { text := "a;".toList } .done) { gap := "\n".toList, pad := [] }
            (.plain { text := "b;".toList } .done) .done))
        .done)
      .done)

/-- The conditional in the chosen branch is decided on its own, and the comment with a brace stays. -/
theorem expandConditionals_render_litScope :
    litScope.NoStrayElse ∧
      litScope.render =
        "fn f() \x7b#if LIT\x7b// \x7d\n#if\tFOG \x7ba;\x7d\nelse\x7bb;\x7d\x7d\x7d".toList ∧
      expandConditionals (Table.empty.insert "LIT" (.bool true)) litScope.render =
        "fn f() \x7b// \x7d\nb;\x7d".toList := by
  have h : litScope.NoStrayElse := by
    simp [litScope, NoStrayElse, render, startsWithElse, skipBlanks, after?]
  refine ⟨h, by decide, ?_⟩
  rw [(expandConditionals_render litScope h (Table.empty.insert "LIT" (.bool true))).1]
  decide

end Markup

end ShaderWeave
