import ComputeKernel.Text.Cut
import Mathlib.Data.List.Basic

/-!
# Texts as bytes

A text is written in UTF-8 (`utf8`), and a place in it is the offset of a byte. Bytes are cut out
between two offsets only if these are in order and cut no character in two, which `slice?` checks.
Of the bytes of a text, exactly the texts that stand in it can be cut out (`slice?_eq_some_iff`).
-/

namespace ComputeKernel.Text

/-- The bytes of a text in UTF-8. -/
def utf8 (cs : List Char) : List UInt8 := cs.flatMap String.utf8EncodeChar

/-- The text that some bytes are the UTF-8 of. -/
def ofUtf8? (bytes : List UInt8) : Option (List Char) :=
  bytes.toByteArray.utf8Decode?.map Array.toList

/-- Whether no character is cut in two at an offset: it is an end of the text, or a character
starts there. -/
def isBoundary (bytes : List UInt8) (i : Nat) : Bool :=
  i == 0 || i == bytes.length || bytes[i]?.any fun b => decide b.IsUTF8FirstByte

/-- The bytes between two offsets, if these are in order and cut no character in two. -/
def slice? (bytes : List UInt8) (start stop : Nat) : Option (List UInt8) :=
  if start ≤ stop ∧ isBoundary bytes start = true ∧ isBoundary bytes stop = true then
    some ((bytes.drop start).take (stop - start))
  else none

/-- The text between two offsets. -/
def read? (bytes : List UInt8) (start stop : Nat) : Option (List Char) :=
  (slice? bytes start stop).bind ofUtf8?

/-- The offset of what stands after a text. -/
def offset (cs : List Char) : Nat := (utf8 cs).length

section Encoding

variable {c : Char} {cs p q w : List Char}

@[simp] theorem utf8_nil : utf8 [] = [] := rfl

theorem utf8_cons : utf8 (c :: cs) = String.utf8EncodeChar c ++ utf8 cs := rfl

@[simp] theorem utf8_append : utf8 (p ++ q) = utf8 p ++ utf8 q := List.flatMap_append

@[simp] theorem length_utf8 : (utf8 cs).length = offset cs := rfl

@[simp] theorem offset_nil : offset [] = 0 := rfl

@[simp] theorem offset_append : offset (p ++ q) = offset p + offset q := by
  rw [offset, utf8_append, List.length_append]
  rfl

theorem offset_cons : offset (c :: cs) = (String.utf8EncodeChar c).length + offset cs := by
  rw [offset, utf8_cons, List.length_append]
  rfl

theorem length_le_offset : cs.length ≤ offset cs := by
  induction cs with
  | nil => exact Nat.le_refl 0
  | cons c cs ih =>
    have hpos := c.utf8Size_pos
    rw [offset_cons, String.length_utf8EncodeChar, List.length_cons]
    omega

@[simp] theorem ofUtf8?_utf8 : ofUtf8? (utf8 cs) = some cs := by
  show cs.utf8Encode.utf8Decode?.map Array.toList = some cs
  rw [List.utf8Decode?_utf8Encode]
  rfl

theorem utf8_injective (h : utf8 p = utf8 q) : p = q :=
  Option.some.inj (by rw [← ofUtf8?_utf8, h, ofUtf8?_utf8])

theorem offset_eq_zero (h : offset cs = 0) : cs = [] := utf8_injective (List.length_eq_zero_iff.1 h)

/-- A text begins with a word where its bytes begin with those of the word. -/
theorem utf8_prefix_iff : utf8 w <+: utf8 cs ↔ w <+: cs := by
  constructor
  · rintro ⟨bytes, h⟩
    have happend : w.utf8Encode ++ bytes.toByteArray = cs.utf8Encode := by
      show (utf8 w).toByteArray ++ bytes.toByteArray = (utf8 cs).toByteArray
      rw [← List.toByteArray_append, h]
    exact List.isPrefix_of_utf8Encode_append_eq_utf8Encode _ happend
  · rintro ⟨r, rfl⟩
    exact ⟨utf8 r, utf8_append.symm⟩

/-- The first byte of a character tells that it starts one, and no other byte does. -/
theorem exists_firstByte (c : Char) : ∃ b bs, String.utf8EncodeChar c = b :: bs ∧
    b.IsUTF8FirstByte ∧ ∀ d ∈ bs, ¬ d.IsUTF8FirstByte := by
  obtain ⟨b, bs, h⟩ := List.exists_cons_of_ne_nil (String.utf8EncodeChar_ne_nil (c := c))
  have hbyte : ∀ i (hi : i < (b :: bs).length), (b :: bs)[i].IsUTF8FirstByte ↔ i = 0 := by
    rw [← h]
    exact fun i hi => UInt8.isUTF8FirstByte_getElem_utf8EncodeChar
  refine ⟨b, bs, h, (hbyte 0 (Nat.zero_lt_succ _)).2 rfl, fun d hd => ?_⟩
  obtain ⟨i, hi, rfl⟩ := List.mem_iff_getElem.1 hd
  exact fun hfirst => Nat.succ_ne_zero i ((hbyte (i + 1) (Nat.succ_lt_succ hi)).1 hfirst)

end Encoding

section Boundaries

variable {c : Char} {cs p v q : List Char} {i j : Nat} {bytes : List UInt8}

/-- Within the bytes of a character there is no boundary. -/
theorem isBoundary_within {b : UInt8} {bs r : List UInt8} (hi : i < bs.length)
    (hbs : ∀ d ∈ bs, ¬ d.IsUTF8FirstByte) : isBoundary (b :: bs ++ r) (i + 1) = false := by
  have hbyte : (b :: bs ++ r)[i + 1]? = some bs[i] := by
    rw [List.cons_append, List.getElem?_cons_succ, List.getElem?_append_left hi,
      List.getElem?_eq_getElem hi]
  have hlength : i + 1 ≠ (b :: bs ++ r).length := by
    rw [List.length_append, List.length_cons]
    omega
  rw [isBoundary, hbyte, beq_false_of_ne hlength, beq_false_of_ne (Nat.succ_ne_zero i),
    Option.any_some, decide_eq_false (hbs _ (List.getElem_mem hi))]
  rfl

/-- After a character, the boundaries are those of the text that follows it. -/
theorem isBoundary_append {b : UInt8} {bs : List UInt8} :
    isBoundary (b :: bs ++ utf8 cs) ((b :: bs).length + i) = isBoundary (utf8 cs) i := by
  have hbyte : (b :: bs ++ utf8 cs)[(b :: bs).length + i]? = (utf8 cs)[i]? := by
    rw [List.getElem?_append_right (Nat.le_add_right _ _), Nat.add_sub_cancel_left]
  -- An empty text ends at 0 and any other starts with a character.
  have hzero : (utf8 cs).length = 0 ∨ (utf8 cs)[0]?.any (fun b => decide b.IsUTF8FirstByte) := by
    cases cs with
    | nil => exact .inl rfl
    | cons d cs =>
      obtain ⟨e, es, he, hfirst, -⟩ := exists_firstByte d
      rw [utf8_cons, he]
      exact .inr (by simp [hfirst])
  have hlength : ((b :: bs).length + i == (b :: bs ++ utf8 cs).length) =
      (i == (utf8 cs).length) := by
    rw [List.length_append, Bool.eq_iff_iff, beq_iff_eq, beq_iff_eq, Nat.add_left_cancel_iff]
  rw [isBoundary, isBoundary, hbyte, hlength]
  rcases Nat.eq_zero_or_pos i with rfl | hpos
  · rcases hzero with h | h <;> simp [h]
  · rw [beq_false_of_ne (Nat.ne_of_gt (Nat.add_pos_right _ hpos)),
      beq_false_of_ne (Nat.ne_of_gt hpos)]

/-- The boundaries of a text are the offsets after the texts that it begins with. -/
theorem isBoundary_iff :
    isBoundary (utf8 cs) i = true ↔ ∃ p q, cs = p ++ q ∧ i = offset p := by
  induction cs generalizing i with
  | nil =>
    constructor
    · intro h
      exact ⟨[], [], rfl, by simpa [isBoundary] using h⟩
    · rintro ⟨p, q, h, rfl⟩
      rw [(List.append_eq_nil_iff.1 h.symm).1]
      rfl
  | cons c cs ih =>
    obtain ⟨b, bs, hc, -, hrest⟩ := exists_firstByte c
    rw [utf8_cons, hc]
    rcases Nat.lt_or_ge i (b :: bs).length with hlt | hge
    · cases i with
      | zero => exact iff_of_true rfl ⟨[], c :: cs, rfl, rfl⟩
      | succ i =>
        have hi : i < bs.length := Nat.lt_of_succ_lt_succ hlt
        rw [isBoundary_within hi hrest]
        refine iff_of_false Bool.false_ne_true ?_
        rintro ⟨_ | ⟨d, p⟩, q, h, hp⟩
        · cases hp
        · obtain ⟨rfl, -⟩ := List.cons.inj h
          rw [offset_cons, hc] at hp
          omega
    · obtain ⟨k, rfl⟩ := Nat.exists_eq_add_of_le hge
      rw [isBoundary_append, ih]
      constructor
      · rintro ⟨p, q, rfl, rfl⟩
        exact ⟨c :: p, q, rfl, by rw [offset_cons, hc]⟩
      · rintro ⟨_ | ⟨d, p⟩, q, h, hk⟩
        · cases Nat.eq_zero_of_add_eq_zero_right hk
        · obtain ⟨rfl, rfl⟩ := List.cons.inj h
          rw [offset_cons, hc] at hk
          exact ⟨p, q, rfl, Nat.add_left_cancel hk⟩

theorem drop_utf8 (h : cs = p ++ q) : (utf8 cs).drop (offset p) = utf8 q := by
  rw [h, utf8_append]
  exact List.drop_left

/-- What can be cut out of a text is what stands in it. -/
theorem slice?_eq_some_iff : slice? (utf8 cs) i j = some bytes ↔
    ∃ p v q, cs = p ++ (v ++ q) ∧ i = offset p ∧ j = offset p + offset v ∧ bytes = utf8 v := by
  have hcut : ∀ p v q, ((utf8 (p ++ (v ++ q))).drop (offset p)).take
      (offset p + offset v - offset p) = utf8 v := by
    intro p v q
    rw [drop_utf8 rfl, utf8_append, Nat.add_sub_cancel_left]
    exact List.take_left
  constructor
  · intro h
    rw [slice?] at h
    split at h
    · rename_i hb
      obtain ⟨hij, hi, hj⟩ := hb
      obtain ⟨p, q, rfl, rfl⟩ := isBoundary_iff.1 hi
      obtain ⟨p', q', hp, rfl⟩ := isBoundary_iff.1 hj
      -- The later boundary is after a longer part of the text.
      obtain ⟨v, rfl, rfl⟩ : ∃ v, p' = p ++ v ∧ q = v ++ q' := by
        rcases List.append_eq_append_iff.1 hp with h | ⟨v, rfl, rfl⟩
        · exact h
        · rw [offset_append] at hij
          rw [offset_eq_zero (show offset v = 0 by omega)]
          exact ⟨[], by simp, rfl⟩
      rw [offset_append] at h ⊢
      exact ⟨p, v, q', rfl, rfl, rfl, (Option.some.inj (hcut p v q' ▸ h)).symm⟩
    · cases h
  · rintro ⟨p, v, q, rfl, rfl, rfl, rfl⟩
    rw [slice?, if_pos ⟨Nat.le_add_right _ _, isBoundary_iff.2 ⟨p, v ++ q, rfl, rfl⟩,
      isBoundary_iff.2 ⟨p ++ v, q, (List.append_assoc _ _ _).symm, offset_append.symm⟩⟩, hcut]

theorem slice?_utf8 (h : cs = p ++ (v ++ q)) (hi : i = offset p) (hj : j = offset p + offset v) :
    slice? (utf8 cs) i j = some (utf8 v) :=
  slice?_eq_some_iff.2 ⟨p, v, q, h, hi, hj, rfl⟩

theorem slice?_suffix (h : cs = p ++ v) (hi : i = offset p) :
    slice? (utf8 cs) i (utf8 cs).length = some (utf8 v) :=
  slice?_utf8 (q := []) (by rw [List.append_nil, h]) hi (by rw [length_utf8, h, offset_append])

theorem read?_utf8 (h : cs = p ++ (v ++ q)) (hi : i = offset p) (hj : j = offset p + offset v) :
    read? (utf8 cs) i j = some v := by
  rw [read?, slice?_utf8 h hi hj, Option.bind_some, ofUtf8?_utf8]

theorem read?_suffix (h : cs = p ++ v) (hi : i = offset p) :
    read? (utf8 cs) i (utf8 cs).length = some v := by
  rw [read?, slice?_suffix h hi, Option.bind_some, ofUtf8?_utf8]

theorem read?_front (h : cs = v ++ q) (hj : j = offset v) : read? (utf8 cs) 0 j = some v :=
  read?_utf8 (p := []) h rfl (by rw [offset_nil, Nat.zero_add, hj])

end Boundaries

end ComputeKernel.Text
