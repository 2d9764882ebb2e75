import ShaderWeave.Proofs.Bytewise.Encoding
import ShaderWeave.Proofs.Text.Occurrence

set_option autoImplicit false

/-!
# Slices of encoded texts

A program that works on the bytes of a text finds its way by offsets, and cuts the text at them. A cut
goes wrong if an offset is not in the text, or inside a character. Here such steps have a **fault** as
their result, and so have the others that a scan may stop at.

The offsets that occur are **places**: where an end of the text starts. At a place the rest of the bytes
is that end, and the bytes between two places are a part of the text.

## Main definitions

* `ShaderWeave.Bytewise.Fault` — what goes wrong.
* `ShaderWeave.Bytewise.Guarded`, `ShaderWeave.Bytewise.Reading` — results of steps that may go wrong.
* `ShaderWeave.Bytewise.slice` — the bytes between two offsets.
* `ShaderWeave.Bytewise.place` — the offset at which an end of a text starts.

## Main results

* `ShaderWeave.Bytewise.drop_place` — the bytes from a place on.
* `ShaderWeave.Bytewise.slice_place` — between two places nothing goes wrong.
* `ShaderWeave.Bytewise.exists_place_of_ascii` — ASCII bytes stand at places.
-/

namespace ShaderWeave

namespace Bytewise

open Text Bytes

/-- **What goes wrong in a scan of bytes.** -/
inductive Fault where
  /-- An offset is not in the text. -/
  | range
  /-- A text is cut inside a character. -/
  | splitCharacter
  /-- More is closed than was opened. -/
  | depth
  /-- Bytes that are taken for a text are not well-formed UTF-8. -/
  | malformed
  /-- A loop would not come nearer to its end. -/
  | stuck
  deriving DecidableEq, Repr

/-- **A result of a scan**, unless something goes wrong. -/
abbrev Guarded (α : Type) := Except Fault α

/-- **A reading**: something is read or nothing is, unless something goes wrong. -/
abbrev Reading (α : Type) := OptionT Guarded α

/-- Whether no character of a text lies on both sides of an offset. -/
def isBoundary (src : Bytes) (i : Nat) : Bool :=
  match src[i]? with
  | some b => i = 0 || !isContinuation b
  | none => i = src.length

/-- **The bytes between two offsets.** Both have to be in the text, in order, and between characters. -/
def slice (src : Bytes) (i j : Nat) : Guarded Bytes :=
  if i ≤ j ∧ j ≤ src.length then
    if isBoundary src i ∧ isBoundary src j then .ok ((src.take j).drop i) else .error .splitCharacter
  else .error .range

/-- The bytes from an offset on. -/
def sliceFrom (src : Bytes) (i : Nat) : Guarded Bytes :=
  slice src i src.length

/-- The bytes from an offset on, whether it is inside a character or not. -/
def bytesFrom (src : Bytes) (i : Nat) : Guarded Bytes :=
  if i ≤ src.length then .ok (src.drop i) else .error .range

/-- What is left of a size. -/
def difference (m n : Nat) : Guarded Nat :=
  if n ≤ m then .ok (m - n) else .error .range

/-- The byte at an offset. -/
def byteAt (src : Bytes) (i : Nat) : Guarded UInt8 :=
  match src[i]? with
  | some b => .ok b
  | none => .error .range

/-- The text of bytes. -/
def text (bs : Bytes) : Guarded Text :=
  match decode? bs with
  | some s => .ok s
  | none => .error .malformed

/-- The bytes of a text are well-formed. -/
@[simp] theorem text_utf8 (s : Text) : text (utf8 s) = .ok s := by
  rw [text, decode?_utf8]

/-! ### Readings -/

section

variable {α β γ δ : Type}

/-- What a reading comes to, if its first part reads something that is known and nothing goes wrong. -/
theorem Reading.run_bind {x : Reading α} {f : α → Reading β} {o : Option γ} {g : γ → α}
    {h : γ → Option β} (hx : x.run = .ok (o.map g)) (hf : ∀ a, o = some a → (f (g a)).run = .ok (h a)) :
    (x >>= f).run = .ok (o.bind h) := by
  rw [OptionT.run_bind, hx]
  cases o with
  | none => rfl
  | some a => exact hf a rfl

/-- The same for what the reading comes to in another form. -/
theorem Reading.run_bind_map {x : Reading α} {f : α → Reading β} {o : Option γ} {g : γ → α}
    {k : γ → Option δ} {e : δ → β} (hx : x.run = .ok (o.map g))
    (hf : ∀ a, o = some a → (f (g a)).run = .ok ((k a).map e)) :
    (x >>= f).run = .ok ((o.bind k).map e) := by
  rw [Option.map_bind]
  exact Reading.run_bind hx hf

/-- The same, if the first part reads just what is known. -/
theorem Reading.run_bind_same {x : Reading α} {f : α → Reading β} {o : Option α} {k : α → Option δ}
    {e : δ → β} (hx : x.run = .ok o) (hf : ∀ a, o = some a → (f a).run = .ok ((k a).map e)) :
    (x >>= f).run = .ok ((o.bind k).map e) :=
  Reading.run_bind_map (g := id) (by rw [hx, Option.map_id]; rfl) hf

/-- The same, if the first part is something or nothing that is at hand. -/
theorem Reading.run_pure_bind {o : Option α} {f : α → Reading β} {k : α → Option δ} {e : δ → β}
    (hf : ∀ a, o = some a → (f a).run = .ok ((k a).map e)) :
    (OptionT.mk (pure o) >>= f).run = .ok ((o.bind k).map e) :=
  Reading.run_bind_same rfl hf

/-- The same, if the first part is a result that goes well. -/
theorem Reading.run_lift_bind {x : Guarded α} {a : α} (hx : x = .ok a) (f : α → Reading β) :
    ((liftM x : Reading α) >>= f).run = (f a).run := by
  subst hx
  rfl

/-- The same, if the first part is a condition. -/
theorem Reading.run_guard_bind {p q : Prop} [Decidable p] [Decidable q] (hpq : p ↔ q)
    (f : Unit → Reading β) :
    ((guard p : Reading Unit) >>= f).run = if q then (f ()).run else .ok none := by
  by_cases hq : q
  · simp [guard, hpq.2 hq, hq]
  · simp [guard, mt hpq.1 hq, hq]
    rfl

/-- Where nothing goes wrong for any of its elements a list is run through. -/
theorem mapM_map_ok (enc : γ → α) {l : List γ} {f : α → Guarded β} {g : γ → β}
    (h : ∀ c ∈ l, f (enc c) = .ok (g c)) : (l.map enc).mapM f = .ok (l.map g) := by
  induction l with
  | nil => rfl
  | cons c l ih =>
    rw [List.forall_mem_cons] at h
    rw [List.map_cons, List.mapM_cons, h.1, ih h.2]
    rfl

/-- Results that all go well are the list of the results. -/
theorem mapM_ok {l : List α} {f : α → Guarded β} {g : α → β} (h : ∀ a ∈ l, f a = .ok (g a)) :
    l.mapM f = .ok (l.map g) := by
  simpa using mapM_map_ok id h

/-- The bytes of texts are all well-formed. -/
theorem mapM_text (ts : List Text) : (ts.map utf8).mapM text = .ok ts := by
  simpa using mapM_map_ok utf8 fun t (_ : t ∈ ts) => text_utf8 t

end

/-! ### Places -/

/-- **The offset at which an end of a text starts.** -/
def place (whole rest : Text) : Nat :=
  byteSize whole - byteSize rest

variable {S s t r : Text}

/-- An end of a text has no more bytes than the text. -/
theorem byteSize_le_of_suffix (h : s <:+ S) : byteSize s ≤ byteSize S := by
  obtain ⟨u, rfl⟩ := h
  rw [byteSize_append]
  exact Nat.le_add_left _ _

/-- A text starts at the offset zero of itself. -/
@[simp] theorem place_self (S : Text) : place S S = 0 :=
  Nat.sub_self _

/-- The empty end of a text starts behind its last byte. -/
theorem place_nil (S : Text) : place S [] = (utf8 S).length := by
  rw [place, byteSize_nil, Nat.sub_zero, length_utf8]

/-- The place behind a part. -/
theorem place_append (h : t ++ r <:+ S) : place S (t ++ r) + byteSize t = place S r := by
  have := byteSize_le_of_suffix h
  rw [byteSize_append] at this
  rw [place, place, byteSize_append]
  omega

/-- The place behind an ASCII character. -/
theorem place_cons {c : Char} (hc : c.toNat < 128) (h : c :: r <:+ S) :
    place S (c :: r) + 1 = place S r := by
  have hsize : byteSize [c] = 1 := by
    rw [← length_utf8, utf8_cons_of_ascii hc]
    rfl
  have := place_append (t := [c]) h
  rwa [hsize] at this

/-- The place behind characters that an end of a text starts with. -/
theorem place_after? {pat : Text} (h : s <:+ S) (hr : after? pat s = some r) :
    place S s + byteSize pat = place S r := by
  rw [after?_eq_some_iff.1 hr]
  exact place_append (after?_eq_some_iff.1 hr ▸ h)

/-- What is shorter stands further behind. -/
theorem place_lt (h : s <:+ S) (hr : r <:+ s) (hne : r ≠ s) : place S s < place S r := by
  obtain ⟨u, rfl⟩ := hr
  rw [← place_append h]
  exact Nat.lt_add_of_pos_right (byteSize_pos (by rintro rfl; exact hne rfl))

/-- Only the empty end of a text starts behind its last byte. -/
theorem place_eq_length_iff (h : r <:+ S) : place S r = (utf8 S).length ↔ r = [] := by
  rw [← place_nil]
  refine ⟨fun heq => ?_, by rintro rfl; rfl⟩
  by_contra hne
  have := place_lt h (List.nil_suffix) (Ne.symm hne)
  omega

/-- **The bytes from a place on** are those of the end that starts there. -/
theorem drop_place (h : s <:+ S) : (utf8 S).drop (place S s) = utf8 s := by
  obtain ⟨u, rfl⟩ := h
  have : place (u ++ s) s = (utf8 u).length := by
    rw [place, byteSize_append, Nat.add_sub_cancel, length_utf8]
  rw [this, utf8_append, List.drop_left]

/-- No end of a text starts behind its last byte. -/
theorem place_le (S s : Text) : place S s ≤ (utf8 S).length := by
  rw [length_utf8]
  exact Nat.sub_le _ _

/-- The byte at a place is the first one of the end that starts there. -/
theorem getElem?_place (h : s <:+ S) : (utf8 S)[place S s]? = (utf8 s).head? := by
  rw [← drop_place h, List.head?_drop]

/-- The byte at a place is in a class exactly if the character there is. -/
theorem getElem?_place_any {bytes : UInt8 → Bool} {chars : Char → Bool} (hclass : Agrees bytes chars)
    (h : s <:+ S) : (utf8 S)[place S s]?.any bytes = s.head?.any chars := by
  rw [getElem?_place h, head?_utf8_any hclass]

/-- An ASCII character is found at the place of an end exactly if the end starts with it. -/
theorem getElem?_place_eq_iff {a : Char} (ha : a.toNat < 128) (h : s <:+ S) :
    (utf8 S)[place S s]? = some (ascii a) ↔ s.head? = some a := by
  rw [getElem?_place h, head?_utf8_eq_iff ha]

/-- The bytes from an offset on are there if a byte stands at it. -/
theorem bytesFrom_of_getElem? {src : Bytes} {i : Nat} {b : UInt8} (h : src[i]? = some b) :
    bytesFrom src i = .ok (src.drop i) :=
  if_pos (Nat.le_of_lt (List.getElem?_eq_some_iff.1 h).1)

/-- Where a byte is not ASCII no ASCII character is found. -/
theorem isPrefixOf_drop_of_high {a : Char} (pat : Text) (ha : a.toNat < 128) {src : Bytes} {i : Nat}
    {b : UInt8} (h : src[i]? = some b) (hb : 128 ≤ b.toNat) :
    (utf8 (a :: pat)).isPrefixOf (src.drop i) = false := by
  rw [← List.head?_drop] at h
  obtain ⟨bs, hbs⟩ := List.head?_eq_some_iff.1 h
  rw [hbs, utf8_cons_of_ascii ha, List.isPrefixOf_cons_cons,
    beq_eq_false_iff_ne.2 (ne_ascii_of_high hb ha).symm, Bool.false_and]

/-- **An ASCII byte stands at a place**: the bytes of other characters are not ASCII. -/
theorem exists_place_of_ascii {a : Char} (ha : a.toNat < 128) {i : Nat}
    (h : (utf8 S)[i]? = some (ascii a)) : ∃ s, a :: s <:+ S ∧ i = place S (a :: s) := by
  induction S generalizing i with
  | nil => simp at h
  | cons c t ih =>
    have hsize : byteSize (c :: t) = (String.utf8EncodeChar c).length + byteSize t := by
      rw [← length_utf8, utf8_cons, List.length_append, length_utf8]
    rw [utf8_cons] at h
    rcases Nat.lt_or_ge i (String.utf8EncodeChar c).length with hi | hi
    · rw [List.getElem?_append_left hi] at h
      rcases Nat.lt_or_ge c.toNat 128 with hc | hc
      · rw [utf8EncodeChar_of_ascii hc, List.length_singleton] at hi
        obtain rfl : i = 0 := by omega
        rw [utf8EncodeChar_of_ascii hc, List.getElem?_cons_zero, Option.some.injEq, ascii_inj ha hc] at h
        exact ⟨t, h ▸ List.suffix_refl _, by rw [h, place_self]⟩
      · exact absurd rfl (ne_ascii_of_high (utf8EncodeChar_high hc _ (List.mem_of_getElem? h)) ha)
    · rw [List.getElem?_append_right hi] at h
      obtain ⟨s, hs, hplace⟩ := ih h
      refine ⟨s, hs.trans (List.suffix_cons c t), ?_⟩
      have := byteSize_le_of_suffix hs
      rw [place] at hplace ⊢
      omega

/-- **No character lies on both sides of a place.** -/
theorem isBoundary_place (h : s <:+ S) : isBoundary (utf8 S) (place S s) = true := by
  rw [isBoundary, getElem?_place h]
  cases s with
  | nil => simp [place_nil]
  | cons c s =>
    obtain ⟨b, bs, hbs, hb⟩ := exists_utf8EncodeChar c
    simp [utf8_cons, hbs, hb]

/-- **Between two places nothing goes wrong**: the bytes there are those of the part between. -/
theorem slice_place (h : t ++ r <:+ S) :
    slice (utf8 S) (place S (t ++ r)) (place S r) = .ok (utf8 t) := by
  have hr : r <:+ S := (List.suffix_append t r).trans h
  have hle : place S (t ++ r) ≤ place S r := by
    rw [← place_append h]
    exact Nat.le_add_right _ _
  rw [slice, if_pos ⟨hle, place_le S r⟩, if_pos ⟨isBoundary_place h, isBoundary_place hr⟩]
  have hlength : place S r - place S (t ++ r) = (utf8 t).length := by
    rw [← place_append h, Nat.add_sub_cancel_left, length_utf8]
  rw [List.drop_take, drop_place h, hlength, utf8_append, List.take_left]

/-- From a place on nothing goes wrong. -/
theorem sliceFrom_place (h : s <:+ S) : sliceFrom (utf8 S) (place S s) = .ok (utf8 s) := by
  have := slice_place (S := S) (t := s) (r := []) (by rwa [List.append_nil])
  rwa [List.append_nil, place_nil] at this

/-- A place is what is left without the rest. -/
theorem difference_place (h : s <:+ S) :
    difference (utf8 S).length (utf8 s).length = .ok (place S s) := by
  rw [difference, length_utf8, length_utf8, if_pos (byteSize_le_of_suffix h), place]

/-- The bytes from the place of an end of the text on are those of that end. -/
theorem bytesFrom_place (h : s <:+ S) : bytesFrom (utf8 S) (place S s) = .ok (utf8 s) := by
  rw [bytesFrom, if_pos (place_le S s), drop_place h]

/-- The byte at the place of an ASCII character is its byte. -/
theorem byteAt_place {c : Char} (hc : c.toNat < 128) (h : c :: r <:+ S) :
    byteAt (utf8 S) (place S (c :: r)) = .ok (ascii c) := by
  rw [byteAt, (getElem?_place_eq_iff hc h).2 rfl]

end Bytewise

end ShaderWeave
