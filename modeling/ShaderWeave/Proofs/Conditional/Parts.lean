import ShaderWeave.Proofs.Conditional.Expansion
import ShaderWeave.Proofs.Include.Place
import ShaderWeave.Proofs.Text.Reflow
import ShaderWeave.Proofs.Text.Respacing

set_option autoImplicit false

/-!
# Expansion part by part

A program is put together from parts that were written apart. It can be expanded part by part if each
part is self-contained: what it becomes does not depend on what follows, as long as that does not go on
with `else`. The text of a tree of markup is self-contained with a newline behind it, also without the
spaces at its ends. So where a part is the text of one tree in one program and that of another tree of
the same value in a second one, the two programs expand alike.

## Main definitions

* `ShaderWeave.ExpandsTo` — a self-contained text, with what it becomes.
* `ShaderWeave.Alike` — texts that expand alike.
* `ShaderWeave.Markup.Presents` — a part of a program that is the text of a tree, with other spaces at
  its ends.

## Main results

* `ShaderWeave.Markup.exists_expandsTo` — the text of a tree without the spaces behind it is
  self-contained.
* `ShaderWeave.Markup.Presents.respaced` — parts that present trees of one value become the same but
  for breaks.
-/

namespace ShaderWeave

open Text Scan

/-! ### One step of an expansion -/

/-- The places that notices are given do not matter to the expansion. -/
theorem expand_parseFrom (flags : Flags) (n : Nat) (s : Text) :
    (Template.parseFrom n s).expand flags = expandConditionals flags s := by
  rw [expandConditionals, Template.parse]
  generalize byteSize s = k
  fun_induction Template.parseFrom n s with
  | case1 => rw [Template.parseFrom_nil]
  | case2 n c s t r hc ih =>
    rw [Template.parseFrom_of_comment hc, Template.expand, Template.expand, ih]
  | case3 n c s hc hr ih =>
    rw [Template.parseFrom_of_plain hc hr, Template.expand, Template.expand, ih]
  | case4 n c s hc d hr ih =>
    rw [Template.parseFrom]
    split
    · simp_all
    · split <;> simp_all [Template.expand]
  | case5 n c s hc b r hr node helse ih₁ ih₂ ih₃ =>
    rw [Template.parseFrom]
    split
    · simp_all
    · split <;> simp_all [Template.expand, node]
  | case6 n c s hc b r hr node helse ih₁ ih₂ ih₃ =>
    rw [Template.parseFrom]
    split
    · simp_all
    · split <;> simp_all [Template.expand, node]

/-- Nothing becomes of the empty text. -/
theorem expandConditionals_nil (flags : Flags) : expandConditionals flags [] = [] := by
  rw [expandConditionals, Template.parse, Template.parseFrom_nil, Template.expand]

section

variable {flags : Flags}

/-- A comment stays, and expansion goes on behind it. -/
theorem expandConditionals_of_comment? {s t r : Text} (h : comment? s = some (t, r)) :
    expandConditionals flags s = t ++ expandConditionals flags r := by
  rw [expandConditionals, Template.parse, Template.parseFrom_of_comment h, Template.expand,
    expand_parseFrom]

/-- Where there is neither a comment nor a conditional, a character stays. -/
theorem expandConditionals_of_unread {c : Char} {s : Text} (hc : comment? (c :: s) = none)
    (hr : (Conditional.read (c :: s)).bind Except.toOption = none) :
    expandConditionals flags (c :: s) = c :: expandConditionals flags s := by
  rw [expandConditionals, Template.parse, Template.parseFrom]
  split
  · simp_all
  · split
    · simp [Template.expand, expand_parseFrom]
    · simp [Template.expand, expand_parseFrom]
    · rename_i h
      rw [h] at hr
      cases hr

/-- A conditional gives way to the body that the flags choose. -/
theorem expandConditionals_of_read {s r : Text} {b : Conditional} (hc : comment? s = none)
    (hr : (Conditional.read s).bind Except.toOption = some (b, r)) :
    expandConditionals flags s =
      (if flags.isEnabled b.flag then expandConditionals flags b.thenBody
        else expandConditionals flags b.elseBody) ++ expandConditionals flags r := by
  cases s with
  | nil => cases hr
  | cons c s =>
    rw [expandConditionals, Template.parse, Template.parseFrom]
    split
    · simp_all
    · split
      · simp_all
      · rename_i h
        rw [h] at hr
        cases hr
      · rename_i h
        rw [h] at hr
        cases hr
        split <;> simp [Template.expand, expand_parseFrom]

end

/-! ### Self-contained texts -/

/-- An inert text stays in front of what the rest becomes. -/
theorem Inert.expand_append {u : Text} (h : Inert u) (flags : Flags) (s : Text) :
    expandConditionals flags (u ++ s) = u ++ expandConditionals flags s := by
  rw [← expand_parseFrom flags 0, h, expand_parseFrom]

/-- **A self-contained text**: whatever follows it, if that does not go on with `else`, it becomes
`g`, and what follows is expanded as if it stood alone. -/
def ExpandsTo (flags : Flags) (u g : Text) : Prop :=
  ∀ z, Markup.startsWithElse z = false →
    expandConditionals flags (u ++ z) = g ++ expandConditionals flags z

/-- An inert text is self-contained and becomes itself. -/
theorem Inert.expandsTo {u : Text} (h : Inert u) (flags : Flags) : ExpandsTo flags u u :=
  fun z _ => h.expand_append flags z

/-- Texts of spaces are inert. -/
theorem inert_of_all_isSpace {u : Text} (h : u.all isSpace = true) : Inert u := by
  refine inert_of_isUncommented (Include.isUncommented_of_all_isSpace h)
    (isClearOf_of_notMem fun hmem => ?_)
  have := List.all_eq_true.1 h _ hmem
  revert this
  decide

/-! ### The word behind a conditional -/

namespace Markup

/-- The word stands behind blanks. -/
theorem startsWithElse_iff {s : Text} :
    startsWithElse s = true ↔
      ∃ w r, w.all isBlank = true ∧ s = (w ++ "else".toList) ++ r := by
  rw [startsWithElse, Option.isSome_iff_exists]
  constructor
  · rintro ⟨r, hr⟩
    refine ⟨s.takeWhile isBlank, r, List.all_takeWhile, ?_⟩
    rw [List.append_assoc, ← after?_eq_some_iff.1 hr]
    exact List.takeWhile_append_dropWhile.symm
  · rintro ⟨w, r, hw, rfl⟩
    refine ⟨r, ?_⟩
    rw [List.append_assoc, skipBlanks_append hw,
      show skipBlanks ("else".toList ++ r) = "else".toList ++ r from skipBlanks_cons (by decide) _,
      after?_append]

/-- What stands in front of other spaces does not go on with `else`, if it does not do so in front of
given ones. -/
theorem startsWithElse_append_spaces {y u v : Text} (hv : v.all isSpace = true)
    (h : startsWithElse (y ++ u) = false) : startsWithElse (y ++ v) = false := by
  rw [← Bool.not_eq_true, startsWithElse_iff] at h ⊢
  rintro ⟨w, r, hw, heq⟩
  refine h ?_
  rcases List.append_eq_append_iff.1 heq with ⟨a, ha, rfl⟩ | ⟨c, rfl, -⟩
  · rcases List.eq_nil_or_concat a with rfl | ⟨a, d, rfl⟩
    · exact ⟨w, u, hw, by rw [ha, List.append_nil]⟩
    · -- the last letter of the word would be among the spaces
      exfalso
      have hd : d = 'e' := by
        have := congrArg List.getLast? ha
        simpa using this.symm
      have hspace := List.all_eq_true.1 hv d (by simp)
      subst hd
      revert hspace
      decide
  · exact ⟨w, c ++ u, hw, List.append_assoc ..⟩

/-- What follows a newline does not complete an `else` in front of it. -/
theorem startsWithElse_append_of_startsLine {u z : Text} (hline : StartsLine u)
    (hu : startsWithElse u = false) (hz : startsWithElse z = false) :
    startsWithElse (u ++ z) = false := by
  rw [← Bool.not_eq_true, startsWithElse_iff] at hu hz ⊢
  rintro ⟨w, r, hw, heq⟩
  rcases List.append_eq_append_iff.1 heq with ⟨a, ha, rfl⟩ | ⟨c, rfl, -⟩
  · rcases List.append_eq_append_iff.1 ha with ⟨c, rfl, hc⟩ | ⟨c, rfl, rfl⟩
    · -- the text ends among the letters of the word, so it ends in front of them
      rcases List.eq_nil_or_concat c with rfl | ⟨c, d, rfl⟩
      · exact hz ⟨[], r, rfl, by rw [← List.nil_append a, ← hc]; rfl⟩
      · exfalso
        obtain rfl : d = '\n' := hline d (by simp)
        have : '\n' ∈ "else".toList := hc ▸ by simp
        revert this
        decide
    · rw [List.all_append, Bool.and_eq_true] at hw
      exact hz ⟨c, r, hw.2, rfl⟩
  · exact hu ⟨w, c, hw, rfl⟩

/-! ### The parts of a tree -/

/-- **A scope is expanded inside**, whatever follows. -/
theorem expand_scope_append {body : Markup} (h : body.NoStrayElse) (flags : Flags) (s : Text) :
    expandConditionals flags (braced body.render ++ s) =
      braced (body.eval flags) ++ expandConditionals flags s := by
  have hopen := inert_singleton (c := '{') (by decide) (by decide)
  have hclose := inert_singleton (c := '}') (by decide) (by decide)
  have hbody := expand_parseFrom_render body h flags 0 (s := '}' :: s) (.inr ⟨_, rfl⟩)
  rw [expand_parseFrom, expand_parseFrom] at hbody
  calc expandConditionals flags (braced body.render ++ s)
      = expandConditionals flags (['{'] ++ (body.render ++ ('}' :: s))) := by simp [braced]
    _ = '{' :: (body.eval flags ++ expandConditionals flags (['}'] ++ s)) := by
        rw [hopen.expand_append, hbody]
        rfl
    _ = braced (body.eval flags) ++ expandConditionals flags s := by
        rw [hclose.expand_append]
        simp [braced]

/-- **A conditional without an alternative** gives way to its body or to nothing, if what follows does
not go on with `else`. -/
theorem expand_when_append (head : IfHead) {body : Markup} (h : body.NoStrayElse) (flags : Flags)
    {s : Text} (hs : startsWithElse s = false) :
    expandConditionals flags (head.text ++ (braced body.render ++ s)) =
      (if head.Holds flags then body.eval flags else []) ++ expandConditionals flags s := by
  have hread := Conditional.read_ifHead head (wellBraced_render body) s
  rw [Conditional.readElse_eq_none hs] at hread
  rw [← expand_parseFrom flags 0, Template.parseFrom_of_read (comment?_ifHead head _) hread rfl,
    Template.expand]
  simp only [expand_parseFrom, expandConditionals_nil, (expandConditionals_render body h flags).1,
    Flags.isEnabled_eq, decide_eq_true_eq]

/-- **A conditional with an alternative** gives way to one of its bodies, whatever follows. -/
theorem expand_either_append (head : IfHead) {body : Markup} (mid : ElseHead) {alt : Markup}
    (h : body.NoStrayElse) (halt : alt.NoStrayElse) (flags : Flags) (s : Text) :
    expandConditionals flags
        (head.text ++ (braced body.render ++ (mid.text ++ (braced alt.render ++ s)))) =
      (if head.Holds flags then body.eval flags else alt.eval flags) ++
        expandConditionals flags s := by
  have hread := Conditional.read_ifHead head (wellBraced_render body)
    (mid.text ++ (braced alt.render ++ s))
  rw [Conditional.readElse_elseHead mid (wellBraced_render alt)] at hread
  rw [← expand_parseFrom flags 0, Template.parseFrom_of_read (comment?_ifHead head _) hread rfl,
    Template.expand]
  simp only [expand_parseFrom, (expandConditionals_render body h flags).1,
    (expandConditionals_render alt halt flags).1, Flags.isEnabled_eq, decide_eq_true_eq]

/-- The text of a tree that consists of spaces is its value. -/
theorem eval_of_all_isSpace {m : Markup} (h : m.render.all isSpace = true) (flags : Flags) :
    m.eval flags = m.render := by
  have hhead : ∀ {c : Char} {s : Text}, isSpace c = false → (c :: s).all isSpace = true → False :=
    fun hc hs => notMem_of_all_isSpace hs hc List.mem_cons_self
  induction m with
  | done => rfl
  | plain t rest ih =>
    rw [render, List.all_append, Bool.and_eq_true] at h
    rw [eval, ih h.2, render]
  | comment c rest => cases c <;> exact (hhead (by decide) h).elim
  | scope => exact (hhead (by decide) h).elim
  | when => exact (hhead (by decide) h).elim
  | either => exact (hhead (by decide) h).elim

/-! ### Without the spaces behind a tree -/

/-- Spaces behind a character that is none stand behind what follows it. -/
theorem exists_append_of_concat {u s y b : Text} {c : Char} (hc : isSpace c = false)
    (hb : b.all isSpace = true) (h : u ++ [c] ++ s = y ++ b) :
    ∃ y', y = u ++ [c] ++ y' ∧ s = y' ++ b := by
  rcases List.append_eq_append_iff.1 h with ⟨y', rfl, rfl⟩ | ⟨d, hd, rfl⟩
  · exact ⟨y', rfl, rfl⟩
  · rw [List.all_append, Bool.and_eq_true] at hb
    obtain rfl := eq_nil_of_concat_eq_append hc hb.1 hd
    exact ⟨[], by rw [hd, List.append_nil, List.append_nil], rfl⟩

/-- The beginning of a plain text is inert in front of other spaces. -/
theorem inert_of_plainText (t : PlainText) {y b v : Text} (h : t.text = y ++ b) (hne : v ≠ [])
    (hv : v.all isSpace = true) : Inert (y ++ v) := by
  have hword : ∀ {w : Text}, isSpaceless w = true → ∀ c ∈ v, c ∉ w := fun hw c hc hcw =>
    notMem_of_all_isSpace hv (isSpace_of_isSpaceless hw hcw) hc
  have hu := t.uncommented
  have hi := t.unconditional
  rw [h, isUncommented, Bool.and_eq_true] at hu
  rw [h] at hi
  refine inert_of_isUncommented ?_ (isClearOf_append hi hne (hword (by decide)))
  rw [isUncommented, isClearOf_append hu.1 hne (hword (by decide)),
    isClearOf_append hu.2 hne (hword (by decide)), Bool.and_self]

/-- A comment is inert in front of other spaces with a newline. -/
theorem inert_of_closedComment (c : ClosedComment) {y b v : Text} (h : c.text = y ++ b)
    (hb : b.all isSpace = true) (hv : v.all isSpace = true) : Inert (y ++ (v ++ ['\n'])) := by
  have hspaces : (v ++ ['\n']).all isSpace = true := by simp [hv, show isSpace '\n' = true by decide]
  rcases eq_or_ne b [] with rfl | hne
  · rw [List.append_nil] at h
    rw [← h]
    exact (inert_closed c).append (inert_of_all_isSpace hspaces)
  cases c with
  | block content =>
    have : '/' :: '*' :: content ++ ['*'] ++ ['/'] = y ++ b := by
      rw [← h]
      simp [ClosedComment.text]
    exact absurd (eq_nil_of_concat_eq_append (by decide) hb this) hne
  | line content hline =>
    -- the spaces behind the content become part of it, up to their first newline
    obtain ⟨b, d, rfl⟩ := (List.eq_nil_or_concat b).resolve_left hne
    have hsplit : '/' :: '/' :: content ++ ['\n'] = (y ++ b) ++ [d] := by
      rw [List.append_assoc, ← List.concat_eq_append, ← List.concat_eq_append, ← h]
      simp [ClosedComment.text]
    obtain ⟨hy, -⟩ := List.append_inj' hsplit rfl
    have hyline : '\n' ∉ y := fun hmem => by
      have : '\n' ∈ '/' :: '/' :: content := hy ▸ List.mem_append_left _ hmem
      simp [hline] at this
    rw [List.concat_eq_append, List.all_append, Bool.and_eq_true] at hb
    obtain ⟨content', rfl, -⟩ := exists_append_of_concat (u := ['/']) (c := '/') (s := content)
      (by decide) hb.1 hy
    obtain ⟨v₁, v₂, hv₁₂, hv₁⟩ := List.eq_append_cons_of_mem
      (show '\n' ∈ v ++ ['\n'] by simp)
    rw [hv₁₂] at hspaces ⊢
    simp only [List.all_append, List.all_cons, Bool.and_eq_true] at hspaces
    have hclosed := inert_closed (.line (content' ++ v₁) (by simp_all))
    have := hclosed.append (inert_of_all_isSpace hspaces.2.2)
    simpa [ClosedComment.text] using this

/-- **The text of a tree without the spaces behind it is self-contained** with other spaces and a
newline behind it. It becomes the value of the tree, with these in the place of the former.

**Proof sketch.** Induction on the tree. The former spaces are at the end of its last plain text, or of
the line comment that comes last; they do not reach to a brace. -/
theorem exists_expandsTo {m : Markup} (hm : m.NoStrayElse) {y b : Text} (h : m.render = y ++ b)
    (hb : b.all isSpace = true) (flags : Flags) :
    ∃ core, m.eval flags = core ++ b ∧ ∀ v, v.all isSpace = true →
      ExpandsTo flags (y ++ (v ++ ['\n'])) (core ++ (v ++ ['\n'])) := by
  have hspaces : ∀ {v : Text}, v.all isSpace = true → (v ++ ['\n']).all isSpace = true := by
    intro v hv
    simp [hv, show isSpace '\n' = true by decide]
  induction m generalizing y with
  | done =>
    obtain ⟨rfl, rfl⟩ := List.append_eq_nil_iff.1 h.symm
    exact ⟨[], rfl, fun v hv => (inert_of_all_isSpace (hspaces hv)).expandsTo flags⟩
  | plain t rest ih =>
    rw [render] at h
    rcases List.append_eq_append_iff.1 h with ⟨y, rfl, hrest⟩ | ⟨d, ht, rfl⟩
    · -- the text ends behind this part, so the rest of the tree keeps the ending
      obtain ⟨core, heval, hcore⟩ := ih hm hrest
      refine ⟨t.text ++ core, by rw [eval, heval, List.append_assoc], fun v hv z hz => ?_⟩
      rw [show t.text ++ y ++ (v ++ ['\n']) ++ z = t.text ++ (y ++ (v ++ ['\n']) ++ z) by simp,
        (inert_of_isUncommented t.uncommented t.unconditional).expand_append, hcore v hv z hz]
      simp
    · -- the text ends within this part, and all that is behind it are spaces
      rw [List.all_append, Bool.and_eq_true] at hb
      refine ⟨y, ?_, fun v hv => (inert_of_plainText t ht (by simp) (hspaces hv)).expandsTo flags⟩
      rw [eval, eval_of_all_isSpace hb.2, ht, List.append_assoc]
  | comment c rest ih =>
    rw [render] at h
    rcases List.append_eq_append_iff.1 h with ⟨y, rfl, hrest⟩ | ⟨d, hc, rfl⟩
    · obtain ⟨core, heval, hcore⟩ := ih hm hrest
      refine ⟨c.text ++ core, by rw [eval, heval, List.append_assoc], fun v hv z hz => ?_⟩
      rw [show c.text ++ y ++ (v ++ ['\n']) ++ z = c.text ++ (y ++ (v ++ ['\n']) ++ z) by simp,
        (inert_closed c).expand_append, hcore v hv z hz]
      simp
    · rw [List.all_append, Bool.and_eq_true] at hb
      refine ⟨y, ?_, fun v hv => (inert_of_closedComment c hc hb.1 hv).expandsTo flags⟩
      rw [eval, eval_of_all_isSpace hb.2, hc, List.append_assoc]
  | scope body rest _ ih =>
    -- a brace is no space, so the text ends behind it
    obtain ⟨y, rfl, hrest⟩ := exists_append_of_concat (u := '{' :: body.render) (c := '}')
      (s := rest.render) (by decide) hb (by rw [← h]; simp [render, braced])
    obtain ⟨core, heval, hcore⟩ := ih hm.2 hrest
    refine ⟨braced (body.eval flags) ++ core, by rw [eval, heval, List.append_assoc],
      fun v hv z hz => ?_⟩
    have := expand_scope_append hm.1 flags (y ++ (v ++ ['\n']) ++ z)
    rw [hcore v hv z hz] at this
    simpa [braced] using this
  | when head body rest _ ih =>
    obtain ⟨y, rfl, hrest⟩ := exists_append_of_concat (u := head.text ++ '{' :: body.render)
      (s := rest.render) (c := '}') (by decide) hb (by rw [← h]; simp [render, braced])
    obtain ⟨core, heval, hcore⟩ := ih hm.2.2 hrest
    refine ⟨_ ++ core, by rw [eval, heval, List.append_assoc], fun v hv z hz => ?_⟩
    -- the word behind the conditional is seen through the spaces that were put in
    have helse : startsWithElse (y ++ (v ++ ['\n']) ++ z) = false := by
      refine startsWithElse_append_of_startsLine (by simp [StartsLine])
        (startsWithElse_append_spaces (hspaces hv) (u := b) ?_) hz
      rw [← hrest]
      exact hm.2.1
    have := expand_when_append head hm.1 flags helse
    rw [hcore v hv z hz] at this
    simpa [braced] using this
  | either head body mid alt rest _ _ ih =>
    obtain ⟨y, rfl, hrest⟩ := exists_append_of_concat
      (u := head.text ++ braced body.render ++ mid.text ++ '{' :: alt.render)
      (s := rest.render) (c := '}') (by decide) hb (by rw [← h]; simp [render, braced])
    obtain ⟨core, heval, hcore⟩ := ih hm.2.2 hrest
    refine ⟨_ ++ core, by rw [eval, heval, List.append_assoc], fun v hv z hz => ?_⟩
    have := expand_either_append head mid hm.1 hm.2.1 flags (y ++ (v ++ ['\n']) ++ z)
    rw [hcore v hv z hz] at this
    simpa [braced] using this

end Markup

/-! ### Texts that expand alike -/

/-- **Texts that expand alike**: behind a newline they become the same, up to breaks. Neither of them
goes on with `else`. -/
structure Alike (flags : Flags) (s t : Text) : Prop where
  left : Markup.startsWithElse s = false
  right : Markup.startsWithElse t = false
  respaced :
    Respaced ('\n' :: expandConditionals flags s) ('\n' :: expandConditionals flags t)

/-- **A part that can be followed by anything**: it does not go on with `else`, and it is self-contained
and ends its last line. -/
structure SelfContained (flags : Flags) (u : Text) : Prop where
  noElse : Markup.startsWithElse u = false
  startsLine : StartsLine u
  exists_expandsTo : ∃ g, ExpandsTo flags u (g ++ ['\n'])

/-- A text that does not start with `else` expands as itself. -/
theorem Alike.refl {flags : Flags} {s : Text} (h : Markup.startsWithElse s = false) :
    Alike flags s s :=
  ⟨h, h, .refl _⟩

/-- A part in front of texts that expand alike. -/
theorem SelfContained.alike {flags : Flags} {u s t : Text} (hu : SelfContained flags u)
    (h : Alike flags s t) : Alike flags (u ++ s) (u ++ t) := by
  obtain ⟨g, hg⟩ := hu.exists_expandsTo
  refine ⟨Markup.startsWithElse_append_of_startsLine hu.startsLine hu.noElse h.left,
    Markup.startsWithElse_append_of_startsLine hu.startsLine hu.noElse h.right, ?_⟩
  rw [hg s h.left, hg t h.right, List.append_assoc, List.append_assoc]
  exact .cons _ (h.respaced.append_left g)

namespace Markup

/-- **A part of a program that presents a tree**: the text of the tree on lines of its own, with other
spaces at its ends; or nothing, if the text is blank. -/
inductive Presents (m : Markup) : Text → Prop
  | blank (h : m.render.all isSpace = true) : Presents m []
  | text {x a y b v : Text} (hx : x.all isSpace = true) (ha : a.all isSpace = true)
      (hb : b.all isSpace = true) (hv : v.all isSpace = true) (h : m.render = a ++ (y ++ b)) :
      Presents m (x ++ (y ++ (v ++ ['\n'])))

/-- **What a part becomes that presents a tree**: the value of the tree, but for spaces. -/
theorem Presents.exists_expand {m : Markup} {p : Text} (h : m.Presents p) (hm : m.NoStrayElse)
    (flags : Flags) :
    ∃ x a core b w, x.all isSpace = true ∧ a.all isSpace = true ∧ b.all isSpace = true ∧ IsBreak w ∧
      m.eval flags = core ++ b ∧
      ∀ z, startsWithElse z = false → ∃ e, expandConditionals flags (p ++ z) = x ++ e ∧
        a ++ e = core ++ (w ++ expandConditionals flags z) := by
  cases h with
  | blank h =>
    exact ⟨[], ['\n'], [], m.eval flags, ['\n'], rfl, by decide,
      by rw [eval_of_all_isSpace h]; exact h, isBreak_newline, rfl, fun z _ => ⟨_, rfl, rfl⟩⟩
  | @text x a y b v hx ha hb hv h =>
    obtain ⟨core, heval, hcore⟩ := exists_expandsTo hm (y := a ++ y) (by rw [h, List.append_assoc])
      hb flags
    have hbreak : IsBreak (v ++ ['\n']) := isBreak_newline.spaces_append hv
    refine ⟨x, a, core, b, _, hx, ha, hb, hbreak, heval, fun z hz => ?_⟩
    refine ⟨expandConditionals flags (y ++ (v ++ ['\n']) ++ z), ?_, ?_⟩
    · rw [List.append_assoc, (inert_of_all_isSpace hx).expand_append]
    · have := hcore v hv z hz
      rw [List.append_assoc a, List.append_assoc a, (inert_of_all_isSpace ha).expand_append] at this
      rw [this, List.append_assoc]

/-- A part that presents a tree ends its last line. -/
theorem Presents.startsLine {m : Markup} {p : Text} (h : m.Presents p) : StartsLine p := by
  cases h with
  | blank => exact startsLine_nil
  | text => simp [StartsLine]

/-- A part that presents a tree does not go on with `else` if the tree does not do so. -/
theorem Presents.startsWithElse_eq {m : Markup} {p : Text} (h : m.Presents p)
    (hm : startsWithElse (trimStart m.render) = false) : startsWithElse p = false := by
  cases h with
  | blank => rfl
  | @text x a y b v hx ha hb hv h =>
    have hy : startsWithElse (y ++ b) = false := by
      rw [h, trimStart_append ha, ← Bool.not_eq_true, startsWithElse_iff] at hm
      rw [← Bool.not_eq_true, startsWithElse_iff]
      rintro ⟨w, r, hw, heq⟩
      refine hm ⟨[], r, rfl, ?_⟩
      rw [heq, List.append_assoc, trimStart_append (Reflow.all_isSpace_of_all_isBlank hw)]
      exact trimStart_eq_self (by simp; decide)
    have hyv := startsWithElse_append_spaces (v := v ++ ['\n']) (by simp [hv]; decide) hy
    rw [← Bool.not_eq_true, startsWithElse_iff] at hyv ⊢
    rintro ⟨w, r, hw, heq⟩
    -- the word does not start among the spaces in front
    rw [List.append_assoc w] at heq
    rcases List.append_eq_append_iff.1 heq with ⟨w, rfl, heq⟩ | ⟨d, rfl, hd⟩
    · rw [List.all_append, Bool.and_eq_true] at hw
      exact hyv ⟨w, r, hw.2, by simpa using heq⟩
    · rw [List.all_append, Bool.and_eq_true] at hx
      have := eq_nil_of_cons_eq_append (c := 'e') (by decide) hx.2 hd
      subst this
      exact hyv ⟨[], r, rfl, hd.symm⟩

/-- **Parts that present trees of one value become the same but for breaks**, in front of texts that do so.

**Proof sketch.** Behind both values there is a break in front of what follows. The values end alike but
for spaces, which the breaks take in; and so do the newlines in front with the spaces that follow
them. -/
theorem Presents.respaced {m₁ m₂ : Markup} {p q s t : Text} (hp : m₁.Presents p) (hq : m₂.Presents q)
    (h₁ : m₁.NoStrayElse) (h₂ : m₂.NoStrayElse) {flags : Flags}
    (hvalue : m₁.eval flags = m₂.eval flags) (h : Alike flags s t) :
    Respaced ('\n' :: expandConditionals flags (p ++ s))
      ('\n' :: expandConditionals flags (q ++ t)) := by
  obtain ⟨x₁, a₁, core₁, b₁, w₁, hx₁, ha₁, hb₁, hw₁, hv₁, hs⟩ := hp.exists_expand h₁ flags
  obtain ⟨x₂, a₂, core₂, b₂, w₂, hx₂, ha₂, hb₂, hw₂, hv₂, ht⟩ := hq.exists_expand h₂ flags
  obtain ⟨e₁, hps, hs⟩ := hs s h.left
  obtain ⟨e₂, hqt, ht⟩ := ht t h.right
  have hnewline : ['\n'].all isSpace = true := by decide
  have hrest : ∀ {u v : Text}, IsBreak u → IsBreak v →
      Respaced (u ++ expandConditionals flags s) (v ++ expandConditionals flags t) :=
    fun hu hv => h.respaced.of_spaces (u := ['\n']) (v := ['\n']) hnewline hnewline hu hv
  have hboth : Respaced (a₁ ++ e₁) (a₂ ++ e₂) := by
    rw [hs, ht]
    rw [hv₁, hv₂] at hvalue
    rcases List.append_eq_append_iff.1 hvalue with ⟨d, rfl, rfl⟩ | ⟨d, rfl, rfl⟩
    · rw [List.all_append, Bool.and_eq_true] at hb₁
      rw [List.append_assoc core₁, ← List.append_assoc d]
      exact (hrest hw₁ (hw₂.spaces_append hb₁.1)).append_left core₁
    · rw [List.all_append, Bool.and_eq_true] at hb₂
      rw [List.append_assoc core₂, ← List.append_assoc d]
      exact (hrest (hw₁.spaces_append hb₂.1) hw₂).append_left core₂
  rw [hps, hqt]
  exact hboth.of_spaces ha₁ ha₂ (isBreak_newline.append_spaces hx₁)
    (isBreak_newline.append_spaces hx₂)

end Markup

end ShaderWeave
