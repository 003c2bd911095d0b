import Mathlib.Data.List.Basic
import ComputeKernel.Text.Cut

/-!
# Divisions of a text

A text is divided by going over it once from left to right: at each place a character is kept or a
span is found (`Divides`). What may be kept or found at a place depends on the text before it and
the text after it. If a character is kept only where nothing can be found (`NothingAt`), no span is
missed; `cut` divides a text in this way when its recogniser finds exactly the spans of some kind
(`divides_cut`). If moreover at most one span can be found at a place, there is one such division
(`Divides.unique`).
-/

namespace ComputeKernel.Text

variable {α : Type}

/-- The pieces of a text that stands after `u`. A span with a value may be found where `finds` holds
of the text before it, the span, the text after it and the value; a character may be kept where
`keeps` holds of the text before it and the text from it on. -/
inductive Divides (finds : List Char → List Char → List Char → α → Prop)
    (keeps : List Char → List Char → Prop) : List Char → List Char → List (Piece α) → Prop
  | nil {u : List Char} : Divides finds keeps u [] []
  | char {u x : List Char} {c : Char} {ps : List (Piece α)} (hk : keeps u (c :: x))
    (h : Divides finds keeps (u ++ [c]) x ps) : Divides finds keeps u (c :: x) (.char c :: ps)
  | found {u span x : List Char} {a : α} {ps : List (Piece α)} (hf : finds u span x a)
    (h : Divides finds keeps (u ++ span) x ps) :
    Divides finds keeps u (span ++ x) (.found span a :: ps)

/-- No span can be found at a place. -/
def NothingAt (finds : List Char → List Char → List Char → α → Prop) (u x : List Char) : Prop :=
  ∀ span rest a, x = span ++ rest → ¬ finds u span rest a

/-- The text with what `g` makes of each value in the place of its span. -/
def filled (g : α → List Char) (ps : List (Piece α)) : List Char :=
  ps.flatMap fun
    | .char c => [c]
    | .found _ a => g a

/-- The text without its spans. -/
def remaining (ps : List (Piece α)) : List Char := filled (fun _ => []) ps

/-- The spans with their values, in order. -/
def takenOut (ps : List (Piece α)) : List (List Char × α) :=
  ps.filterMap fun
    | .char _ => none
    | .found span a => some (span, a)

variable {finds : List Char → List Char → List Char → α → Prop}
  {keeps : List Char → List Char → Prop} {u v x : List Char} {c : Char} {ps : List (Piece α)}
  {g : α → List Char}

theorem Divides.text (h : Divides finds keeps u x ps) : ps.flatMap Piece.text = x := by
  induction h with
  | nil => rfl
  | char _ _ ih => rw [List.flatMap_cons, ih]; rfl
  | found _ _ ih => rw [List.flatMap_cons, ih]; rfl

/-- A text is kept as a whole if each of its places may be kept. -/
theorem Divides.keep_append
    (hv : ∀ w y, v = w ++ y → y ≠ [] → keeps (u ++ w) (y ++ x))
    (h : Divides finds keeps (u ++ v) x ps) :
    Divides finds keeps u (v ++ x) (v.map Piece.char ++ ps) := by
  induction v generalizing u with
  | nil => simpa using h
  | cons c v ih =>
    refine .char (by simpa using hv [] (c :: v) rfl (by simp)) (ih (fun w y hw hy => ?_) ?_)
    · simpa using hv (c :: w) y (by rw [hw]; rfl) hy
    · simpa using h

/-- The pieces of two texts one after the other are those of both, if what may be kept or found in
the first does not change with the second behind it. -/
theorem Divides.append {t : List Char} {qs : List (Piece α)} (hp : Divides finds keeps u x ps)
    (hkeep : ∀ w y, x = w ++ y → y ≠ [] → keeps (u ++ w) y → keeps (u ++ w) (y ++ t))
    (hfind : ∀ w span y a, x = w ++ (span ++ y) → finds (u ++ w) span y a →
      finds (u ++ w) span (y ++ t) a)
    (hq : Divides finds keeps (u ++ x) t qs) : Divides finds keeps u (x ++ t) (ps ++ qs) := by
  induction hp with
  | nil => simpa using hq
  | @char u x c ps hk _ ih =>
    have hhere := hkeep [] (c :: x) rfl (List.cons_ne_nil c x)
    rw [List.append_nil] at hhere
    refine .char (hhere hk) (ih (fun w y hw => ?_) (fun w span y a hw => ?_) (by simpa using hq))
    · simpa using hkeep (c :: w) y (by rw [hw]; rfl)
    · simpa using hfind (c :: w) span y a (by rw [hw]; rfl)
  | @found u span x a ps hf _ ih =>
    have hhere := hfind [] span x a rfl
    rw [List.append_nil] at hhere
    rw [List.append_assoc]
    refine .found (hhere hf) (ih (fun w y hw => ?_) (fun w span' y a' hw => ?_) (by simpa using hq))
    · simpa using hkeep (span ++ w) y (by rw [hw]; simp)
    · simpa using hfind (span ++ w) span' y a' (by rw [hw]; simp)

/-- Where nothing can be found anywhere, the text stays as it is. -/
theorem Divides.filled_eq (h : Divides finds keeps u x ps)
    (hno : ∀ v y, u ++ x = v ++ y → NothingAt finds v y) : filled g ps = x := by
  induction h with
  | nil => rfl
  | char _ _ ih =>
    have hrest := ih fun v y hv => hno v y (by simpa using hv)
    rw [filled, List.flatMap_cons, ← filled, hrest]
    rfl
  | found hf => exact absurd hf (hno _ _ rfl _ _ _ rfl)

theorem filled_append {qs : List (Piece α)} : filled g (ps ++ qs) = filled g ps ++ filled g qs :=
  List.flatMap_append

theorem filled_chars : filled g (v.map Piece.char) = v := by
  induction v with
  | nil => rfl
  | cons c v ih =>
    rw [List.map_cons, filled, List.flatMap_cons, ← filled, ih]
    rfl

theorem takenOut_chars : takenOut (v.map (Piece.char (α := α))) = [] := by
  simp [takenOut, List.filterMap_map]

/-- A text is divided in one way only if at most one span can be found at each place and no span is
missed. -/
theorem Divides.unique {qs : List (Piece α)}
    (hone : ∀ u span rest a span' rest' a', span ++ rest = span' ++ rest' → finds u span rest a →
      finds u span' rest' a' → span = span' ∧ a = a')
    (hne : ∀ u span rest a, finds u span rest a → span ≠ [])
    (hp : Divides finds (NothingAt finds) u x ps) (hq : Divides finds (NothingAt finds) u x qs) :
    ps = qs := by
  induction hp generalizing qs with
  | nil =>
    generalize hx : ([] : List Char) = y at hq
    cases hq with
    | nil => rfl
    | char => cases hx
    | found hf => exact absurd (List.append_eq_nil_iff.1 hx.symm).1 (hne _ _ _ _ hf)
  | @char u x c _ hk _ ih =>
    generalize hx : c :: x = y at hq
    cases hq with
    | nil => cases hx
    | char _ hq =>
      cases hx
      rw [ih hq]
    | found hf => exact absurd hf (hk _ _ _ hx)
  | @found u span x a _ hf _ ih =>
    generalize hx : span ++ x = y at hq
    cases hq with
    | nil => exact absurd (List.append_eq_nil_iff.1 hx).1 (hne _ _ _ _ hf)
    | char hk => exact absurd hf (hk _ _ _ hx.symm)
    | found hf' hq =>
      obtain ⟨rfl, rfl⟩ := hone _ _ _ _ _ _ _ hx hf hf'
      cases List.append_cancel_left hx
      rw [ih hq]

theorem length_lt_of_span {span rest : List Char} (h : x = span ++ rest) (hne : span ≠ []) :
    rest.length < x.length := by
  have := List.length_pos_iff.2 hne
  rw [h, List.length_append]
  omega

/-- A recogniser that finds exactly the spans of some kind cuts a text at all of them, from left to
right. -/
theorem divides_cut {find : Recogniser α}
    (isSpan : Option Char → List Char → List Char → α → Prop)
    (hfind : ∀ b cs a rest,
      find b cs = some (a, rest) ↔ ∃ span, cs = span ++ rest ∧ isSpan b span rest a)
    (hne : ∀ b span rest a, isSpan b span rest a → span ≠ []) (u cs : List Char) :
    Divides (fun u => isSpan u.getLast?) (NothingAt fun u => isSpan u.getLast?) u cs
      (cut find u.getLast? cs) := by
  induction hl : cs.length using Nat.strongRecOn generalizing u cs with
  | _ l ih =>
    cases cs with
    | nil =>
      rw [cut]
      exact .nil
    | cons c r =>
      rw [cut]
      split
      · rename_i hnone
        refine .char (fun span rest a hs hspan => ?_) ?_
        · rw [(hfind _ _ a rest).2 ⟨span, hs, hspan⟩] at hnone
          cases hnone
        · have := ih r.length (by simp [← hl]) (u ++ [c]) r rfl
          rwa [List.getLast?_concat] at this
      · rename_i a rest hsome
        obtain ⟨span, hs, hspan⟩ := (hfind _ _ _ _).1 hsome
        have hlen := length_lt_of_span hs (hne _ _ _ _ hspan)
        rw [if_pos hlen]
        simp only [hs, consumed_append, List.length_append, Nat.add_sub_cancel, List.drop_left]
        refine .found hspan ?_
        rw [← List.getLast?_append_of_ne_nil u (hne _ _ _ _ hspan)]
        exact ih rest.length (by rw [← hl]; exact hlen) (u ++ span) rest rfl

end ComputeKernel.Text
