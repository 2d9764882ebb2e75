import ShaderWeave.Binding.Declaration
import ShaderWeave.Proofs.Bytewise.Scan
import ShaderWeave.Proofs.Scan.Pieces

set_option autoImplicit false

/-!
# Declarations of bindings in bytes

The reading of the bindings that a program declares, for a program that holds its bytes. The parts of a
declaration are cut out of the program at offsets that are found one after the other.

## Main definitions

* `ShaderWeave.Bytewise.readDeclaration` — the declaration at an offset.
* `ShaderWeave.Bytewise.extractBindings` — a set of bindings with the declarations of a program.

## Main results

* `ShaderWeave.Bytewise.extractBindings_utf8` — nothing goes wrong in the reading, and the bindings are
  those that the text declares.
-/

namespace ShaderWeave

namespace Bytewise

open Text Bytes Scan

variable {S s r : Text}

/-- The attribute of a name at an offset: its number, with the offset behind it. -/
def readAttribute (name : Text) (src : Bytes) (i : Nat) : Reading (UInt32 × Nat) := do
  let rest ← liftM (sliceFrom src (skipBlanks src i))
  let rest ← liftM (text rest)
  let rest ← OptionT.mk (pure (after? ('@' :: name) rest))
  let i ← liftM (difference src.length (utf8 rest).length)
  let (argument, i) ← readParens src (skipBlanks src i)
  let argument ← liftM (text argument)
  let n ← OptionT.mk (pure (Declaration.slotNumber? argument))
  return (n, i)

/-- The address space and the access mode at an offset. -/
def readKind (src : Bytes) (i : Nat) : Reading (Text × Option Text × Nat) := do
  if src[i]? = some (ascii '<') then
    let (inner, close) ← readUpTo '>' src i
    let kind := trim (inner.takeWhile (· ≠ ','))
    let access := trim (((inner.dropWhile (· ≠ ',')).drop 1).takeWhile (· ≠ ','))
    guard (kind ≠ [])
    return (kind, if access = [] then none else some access, skipBlanks src (close + 1))
  else return (Binding.handleKind.toList, none, i)

/-- The type behind the colon at an offset. -/
def readType (src : Bytes) (i : Nat) : Reading (Text × Nat) := do
  guard (src[i]? = some (ascii ':'))
  let (inner, semicolon) ← readUpTo ';' src i
  guard (trim inner ≠ [])
  return (trim inner, semicolon + 1)

/-- **The declaration at an offset**, with the offset behind it. -/
def readDeclaration (stages : StageSet) (src : Bytes) (i : Nat) : Reading (Binding × Nat) := do
  let (group, i) ← readAttribute "group".toList src i
  let (binding, i) ← readAttribute "binding".toList src i
  let (keyword, i) ← readWord src (skipBlanks src i)
  guard (keyword = utf8 "var".toList)
  let (kind, access, i) ← readKind src (skipBlanks src i)
  let (name, i) ← readWord src i
  let name ← liftM (text name)
  let (type, i) ← readType src (skipBlanks src i)
  return (⟨group, binding, .ofList kind, access.map .ofList, .ofList name, .ofList type, stages⟩, i)

/-- One turn of the reading of declarations, with the bindings read so far. -/
def bindingStep (stages : StageSet) (src : Bytes) (i : Nat) (b : UInt8) (set : BindingSet) :
    Guarded (Step BindingSet BindingSet) := do
  if b = ascii '@' then
    match ← (readDeclaration stages src i).run with
    | some (binding, stop) => return .next stop (set.insert binding).2
    | none => return .next (i + 1) set
  else return .next (i + 1) set

/-- **A set of bindings with the declarations of a program**, which is that of a stage if one is given. -/
def extractBindings (stage : Option Stage) (src : Bytes) (set : BindingSet) : Guarded BindingSet :=
  scan src (bindingStep ((stage.map StageSet.single).getD .empty) src) (fun set => .ok set) 0 set

/-! ### The parts of a declaration -/

/-- **The attribute at a place.** -/
theorem readAttribute_place (name : Text) (h : s <:+ S) :
    (readAttribute name (utf8 S) (place S s)).run =
      .ok ((Declaration.readAttribute name s).map fun p => (p.1, place S p.2)) := by
  have hblanks : Text.skipBlanks s <:+ S := (skipBlanks_suffix s).trans h
  have htext : Declaration.readAttribute name s =
      (after? ('@' :: name) (Text.skipBlanks s)).bind fun r =>
        (parenthesized? (Text.skipBlanks r)).bind fun q =>
          (Declaration.slotNumber? q.1).bind fun n => some (n, q.2) := rfl
  rw [readAttribute, skipBlanks_place h, htext,
    Reading.run_lift_bind (sliceFrom_place hblanks), Reading.run_lift_bind (text_utf8 _)]
  refine Reading.run_pure_bind ?_
  intro r hr
  have hrS : r <:+ S := (after?_suffix hr).trans hblanks
  rw [Reading.run_lift_bind (difference_place hrS), skipBlanks_place hrS]
  refine Reading.run_bind_map (readParens_place ((skipBlanks_suffix r).trans hrS)) ?_
  rintro ⟨argument, t⟩ hargument
  rw [Reading.run_lift_bind (text_utf8 argument)]
  refine Reading.run_pure_bind ?_
  intro n _
  rfl

/-- The address space and the access mode, step by step. -/
theorem readKind_cons (s : Text) :
    Declaration.readKind ('<' :: s) =
      (upTo? '>' s).bind fun p =>
        if trim (p.1.takeWhile (· ≠ ',')) ≠ [] then
          some (trim (p.1.takeWhile (· ≠ ',')),
            if trim (((p.1.dropWhile (· ≠ ',')).drop 1).takeWhile (· ≠ ',')) = [] then none
            else some (trim (((p.1.dropWhile (· ≠ ',')).drop 1).takeWhile (· ≠ ','))),
            Text.skipBlanks p.2)
        else none := by
  rw [Declaration.readKind, upTo?]
  cases s.dropWhile (· ≠ '>') with
  | nil => rfl
  | cons c r =>
    simp only [Option.bind_some, ne_eq, ite_not]

/-- **The address space and the access mode at a place.** -/
theorem readKind_place (h : s <:+ S) :
    (readKind (utf8 S) (place S s)).run =
      .ok ((Declaration.readKind s).map fun p => (p.1, p.2.1, place S p.2.2)) := by
  have hopen : ('<' : Char).toNat < 128 := by decide
  have hclose : ('>' : Char).toNat < 128 := by decide
  rw [readKind]
  by_cases hhead : s.head? = some '<'
  · obtain ⟨t, rfl⟩ := List.head?_eq_some_iff.1 hhead
    rw [if_pos ((getElem?_place_eq_iff hopen h).2 rfl), readKind_cons]
    refine Reading.run_bind_map (readUpTo_place hopen hclose (by decide) h) ?_
    rintro ⟨inner, r⟩ hinner
    have hr : '>' :: r <:+ S := (suffix_of_upTo? hinner).trans ((List.suffix_cons _ t).trans h)
    rw [Reading.run_guard_bind Iff.rfl, place_cons hclose hr,
      skipBlanks_place ((List.suffix_cons _ r).trans hr)]
    split <;> rfl
  · rw [if_neg (mt (getElem?_place_eq_iff hopen h).1 hhead), Declaration.readKind]
    · rfl
    · rintro t rfl
      exact hhead rfl

/-- **The type at a place.** -/
theorem readType_place (h : s <:+ S) :
    (readType (utf8 S) (place S s)).run =
      .ok ((Declaration.readType s).map fun p => (p.1, place S p.2)) := by
  have hcolon : (':' : Char).toNat < 128 := by decide
  have hclose : (';' : Char).toNat < 128 := by decide
  rw [readType, Reading.run_guard_bind (getElem?_place_eq_iff hcolon h)]
  by_cases hhead : s.head? = some ':'
  · obtain ⟨t, rfl⟩ := List.head?_eq_some_iff.1 hhead
    have htype : Declaration.readType (':' :: t) =
        (upTo? ';' t).bind fun p => if trim p.1 ≠ [] then some (trim p.1, p.2) else none := by
      rw [Declaration.readType, upTo?]
      cases t.dropWhile (· ≠ ';') with
      | nil => rfl
      | cons c r => simp only [Option.bind_some, ne_eq, ite_not]
    rw [if_pos hhead, htype]
    refine Reading.run_bind_map (readUpTo_place hcolon hclose (by decide) h) ?_
    rintro ⟨inner, r⟩ hinner
    have hr : ';' :: r <:+ S := (suffix_of_upTo? hinner).trans ((List.suffix_cons _ t).trans h)
    rw [Reading.run_guard_bind Iff.rfl, place_cons hclose hr]
    split <;> rfl
  · have hnone : Declaration.readType s = none := by
      unfold Declaration.readType
      split
      · exact absurd rfl hhead
      · rfl
    rw [if_neg hhead, hnone]
    rfl

/-! ### Declarations -/

/-- A declaration, step by step. -/
theorem read_declaration_eq (stages : StageSet) (s : Text) :
    Declaration.read stages s =
      (Declaration.readAttribute "group".toList s).bind fun g =>
        (Declaration.readAttribute "binding".toList g.2).bind fun n =>
          (word? (Text.skipBlanks n.2)).bind fun k =>
            if k.1 = "var".toList then
              (Declaration.readKind (Text.skipBlanks k.2)).bind fun a => (word? a.2.2).bind fun v =>
                (Declaration.readType (Text.skipBlanks v.2)).bind fun t =>
                  some (⟨g.1, n.1, .ofList a.1, a.2.1.map .ofList, .ofList v.1, .ofList t.1, stages⟩, t.2)
            else none := by
  have hkeyword : ∀ {α : Type} (w t : Text) (f : Text → Option α),
      (keyword? w t).bind f = (word? t).bind fun k => if k.1 = w then f k.2 else none := by
    intro α w t f
    rw [keyword?]
    cases word? t with
    | none => rfl
    | some k =>
      simp only [Option.bind_some]
      split <;> rfl
  rw [Declaration.read]
  refine bind_congr fun g => bind_congr fun n => ?_
  exact hkeyword "var".toList (Text.skipBlanks n.2) _

/-- **The declaration at a place.** -/
theorem readDeclaration_place (stages : StageSet) (h : s <:+ S) :
    (readDeclaration stages (utf8 S) (place S s)).run =
      .ok ((Declaration.read stages s).map fun p => (p.1, place S p.2)) := by
  rw [readDeclaration, read_declaration_eq]
  refine Reading.run_bind_map (readAttribute_place _ h) ?_
  rintro ⟨group, r₁⟩ hgroup
  have hr₁ : r₁ <:+ S :=
    ((Declaration.readAttribute_suffix hgroup).1.trans (skipBlanks_suffix s)).trans h
  refine Reading.run_bind_map (readAttribute_place _ hr₁) ?_
  rintro ⟨binding, r₂⟩ hbinding
  have hr₂ : r₂ <:+ S :=
    ((Declaration.readAttribute_suffix hbinding).1.trans (skipBlanks_suffix r₁)).trans hr₁
  have hblanks₂ : Text.skipBlanks r₂ <:+ S := (skipBlanks_suffix r₂).trans hr₂
  dsimp only
  rw [skipBlanks_place hr₂]
  refine Reading.run_bind_map (readWord_place hblanks₂) ?_
  rintro ⟨keyword, r₃⟩ hkeyword
  have hr₃ : r₃ <:+ S := (word?_suffix hkeyword).trans hblanks₂
  rw [Reading.run_guard_bind utf8_inj]
  split
  · have hblanks₃ : Text.skipBlanks r₃ <:+ S := (skipBlanks_suffix r₃).trans hr₃
    dsimp only
    rw [skipBlanks_place hr₃]
    refine Reading.run_bind_map (readKind_place hblanks₃) ?_
    rintro ⟨kind, access, r₄⟩ hkind
    have hr₄ : r₄ <:+ S := (Declaration.readKind_suffix hkind).trans hblanks₃
    refine Reading.run_bind_map (readWord_place hr₄) ?_
    rintro ⟨name, r₅⟩ hname
    have hr₅ : r₅ <:+ S := (word?_suffix hname).trans hr₄
    rw [Reading.run_lift_bind (text_utf8 name), skipBlanks_place hr₅]
    refine Reading.run_bind_map (readType_place ((skipBlanks_suffix r₅).trans hr₅)) ?_
    rintro ⟨type, r₆⟩ -
    rfl
  · rfl

/-- **The declarations of a program.** Nothing goes wrong in the reading. -/
theorem extractBindings_utf8 (stage : Option Stage) (S : Text) (set : BindingSet) :
    extractBindings stage (utf8 S) set = .ok (ShaderWeave.extractBindings stage S set).value := by
  generalize hstages : (stage.map StageSet.single).getD .empty = stages
  have hvalue : (ShaderWeave.extractBindings stage S set).value =
      set.insertAll (items (Declaration.reader stages) S) := by
    rw [value_extractBindings, hstages, declarations]
  -- the set so far and the declarations still to be read make up the result
  have hfollows : FollowsLive S (bindingStep stages (utf8 S)) (fun set => .ok set)
      (fun s set' => set'.insertAll (items (Declaration.reader stages) s) =
        set.insertAll (items (Declaration.reader stages) S))
      (set.insertAll (items (Declaration.reader stages) S)) := by
    have hother : ∀ {c : Char} (t : Text), c ≠ '@' → (Declaration.reader stages).read (c :: t) = none := by
      intro c t hc
      simp only [Declaration.reader]
      split
      · rename_i heq
        exact absurd (List.cons.inj heq).1 hc
      · rfl
    refine ⟨?_, ?_, ?_, ?_, ?_⟩
    · intro set' h
      rw [items_nil] at h
      rw [← h]
      rfl
    · intro i b set' _ hb
      rw [bindingStep, if_neg (ne_ascii_of_high hb (by decide))]
      rfl
    · intro c t set' hc hcomment h
      rwa [items_of_unread hcomment (hother t (by rintro rfl; exact absurd hc (by decide)))] at h
    · intro t u r set' hcomment h
      rwa [items_of_comment? hcomment] at h
    · -- an ASCII character; only `@` may start a declaration
      intro c t set' hc hs hcomment h
      by_cases hat : c = '@'
      · subst hat
        have hplace := readDeclaration_place stages hs
        rw [bindingStep, if_pos rfl, hplace]
        cases hread : Declaration.read stages ('@' :: t) with
        | none =>
          rw [items_of_unread (R := Declaration.reader stages) hcomment hread] at h
          exact .inr ⟨t, set', List.suffix_refl t, by rw [← place_cons hc hs]; rfl, h⟩
        | some p =>
          obtain ⟨binding, r⟩ := p
          obtain ⟨_, _, heq, hr⟩ := (Declaration.reader stages).read_suffix (s := '@' :: t) hread
          obtain rfl := (List.cons.inj heq).2
          rw [items_of_read (R := Declaration.reader stages) hcomment hread] at h
          exact .inr ⟨r, (set'.insert binding).2, hr, rfl, h⟩
      · rw [items_of_unread hcomment (hother t hat)] at h
        refine .inr ⟨t, set', List.suffix_refl t, ?_, h⟩
        rw [bindingStep, if_neg (mt (ascii_inj (by decide) hc).1 hat), place_cons hc hs]
        rfl
  have := hfollows.scan_eq _ (List.suffix_refl S) rfl
  rw [place_self] at this
  rw [extractBindings, hstages, this, hvalue]

end Bytewise

end ShaderWeave
