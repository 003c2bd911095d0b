import ComputeKernel.Proofs.Division
import ComputeKernel.Proofs.Nesting

/-!
# What substitution reproduces

For any name, identifier or not, `substitute` goes over a text once: it copies a character, passes
over a name that is not used there, or replaces a use (`substituteFrom_pass`). So the text is
divided into what is copied and the uses, whatever they are replaced by (`divides_substituteFrom`).

A use that is written out again (`printed`) loses its blanks and has its indices in square brackets,
whatever bracket closed them. Nothing else changes (`squared_substituteFrom`).
-/

namespace ComputeKernel.Body

open Text

section Passing

variable {name : List Char} {max : Nat} {b : Option Char} {u x cs rest : List Char} {s : Subscript}

/-- A use of `name` starts at a place: the name stands there, not as a part of something else, with
a closed bracket after it. -/
def StartsUse (name u x : List Char) : Prop :=
  joinsName u.getLast? = false ∧ ∃ w i k r, Blank w ∧ Balanced i ∧ isClose k = true ∧
    x = name ++ (w ++ '[' :: (i ++ k :: r))

theorem IsUse.starts (h : IsUse name s cs rest) : ∃ w i k r, Blank w ∧ Balanced i ∧
    isClose k = true ∧ cs = name ++ (w ++ '[' :: (i ++ k :: r)) := by
  have hfirst : ∀ {is g}, Indices is g → is ≠ [] → ∀ z, ∃ w i k r, Blank w ∧ Balanced i ∧
      isClose k = true ∧ name ++ (g ++ z) = name ++ (w ++ '[' :: (i ++ k :: r)) := by
    intro is g hi hne z
    cases hi with
    | nil => exact absurd rfl hne
    | @cons w i k is g hb hi hk h => exact ⟨w, i, k, g ++ z, hb, hi, hk, by simp⟩
  cases h with
  | load hi hne => exact hfirst hi hne rest
  | store hi hne => exact hfirst hi hne _

theorem StartsUse.occurrence? (hne : name ≠ []) (h : StartsUse name u x) :
    Body.occurrence? name (max + 1) u.getLast? x ≠ none := by
  obtain ⟨hb, w, i, k, r, hw, hi, hk, rfl⟩ := h
  rw [occurrence?_of_groups hne hb (head?_ident_blank hw rfl) (indexGroups_cons hw hi hk)]
  exact Option.some_ne_none _

/-- Where no use is read, a character or a whole name is copied. -/
theorem substituteFrom_pass {c : Char} {r : List Char}
    (h : occurrence? name max b (c :: r) = none) :
    ∃ v rest, c :: r = v ++ rest ∧ v ≠ [] ∧ (v = [c] ∨ v = name) ∧ ∀ f,
      substituteFrom name max f b (c :: r) = v ++ substituteFrom name max f v.getLast? rest := by
  have hchar : (∀ f, substituteFrom name max f b (c :: r) =
      c :: substituteFrom name max f (some c) r) → ∃ v rest, c :: r = v ++ rest ∧ v ≠ [] ∧
        (v = [c] ∨ v = name) ∧ ∀ f, substituteFrom name max f b (c :: r) =
          v ++ substituteFrom name max f v.getLast? rest :=
    fun hf => ⟨[c], r, rfl, by simp, .inl rfl, hf⟩
  rcases ha : after? name (c :: r) with _ | rest
  · refine hchar fun f => ?_
    rw [substituteFrom]
    split
    · rename_i h'
      cases h.symm.trans h'
    · simp only [ha]
  · by_cases hlen : rest.length < (c :: r).length
    · have htext := after?_eq_some ha
      refine ⟨name, rest, htext, ?_, .inr rfl, fun f => ?_⟩
      · rintro rfl
        rw [htext] at hlen
        simp at hlen
      · rw [substituteFrom]
        split
        · rename_i h'
          cases h.symm.trans h'
        · simp only [ha, if_pos hlen]
    · refine hchar fun f => ?_
      rw [substituteFrom]
      split
      · rename_i h'
        cases h.symm.trans h'
      · simp only [ha, if_neg hlen]

/-- A use is read off the front of a text. -/
theorem IsUse.exists_span (h : IsUse name s cs rest) : ∃ span, cs = span ++ rest := by
  cases h with
  | load => exact ⟨_, (List.append_assoc _ _ _).symm⟩
  | @store is g blanks sign v _ op m =>
    exact ⟨name ++ (g ++ (blanks ++ (sign ++ v))), by simp⟩

end Passing

section Dividing

variable {name : List Char} {max : Nat} {u x : List Char}

/-- A use of `name` with at most `max` indices, between the text before it and the text after it. -/
def FindsUse (name : List Char) (max : Nat) (u span rest : List Char) (s : Subscript) : Prop :=
  joinsName u.getLast? = false ∧ s.indices.length ≤ max ∧ IsUse name s (span ++ rest) rest

/-- A place at which no use starts, or one within a name that is passed over. -/
def IsPassed (name : List Char) (max : Nat) (u x : List Char) : Prop :=
  0 < max → StartsUse name u x → ∃ w y, w <:+ u ∧ y <+: x ∧ w ≠ [] ∧ y ≠ [] ∧ name = w ++ y

theorem isPassed_of_none (hne : name ≠ []) (h : occurrence? name max u.getLast? x = none) :
    IsPassed name max u x := by
  intro hmax hstart
  obtain ⟨m, rfl⟩ := Nat.exists_eq_add_one_of_ne_zero (Nat.ne_of_gt hmax)
  exact absurd h (hstart.occurrence? hne)

/-- A text is divided into the uses of a name and what is copied, in the same way whatever the uses
are replaced by. -/
theorem divides_substituteFrom (hne : name ≠ []) (max : Nat) (u cs : List Char) :
    ∃ ps, Divides (FindsUse name max) (IsPassed name max) u cs ps ∧
      ∀ f, substituteFrom name max f u.getLast? cs =
        filled (fun s => f (s.map (substitute name max f))) ps := by
  induction hl : cs.length using Nat.strongRecOn generalizing u cs with
  | _ l ih =>
    cases cs with
    | nil => exact ⟨[], .nil, fun f => substituteFrom_nil⟩
    | cons c r =>
      rcases ho : occurrence? name max u.getLast? (c :: r) with _ | ⟨s, rest⟩
      · obtain ⟨v, rest, htext, hv, hkind, hf⟩ := substituteFrom_pass ho
        have hlen : rest.length < l := hl ▸ length_lt_of_span htext hv
        obtain ⟨ps, hps, hfilled⟩ := ih rest.length hlen (u ++ v) rest rfl
        refine ⟨v.map Piece.char ++ ps, ?_, fun f => ?_⟩
        · rw [htext]
          refine hps.keep_append fun w y hwy hy => ?_
          cases w with
          | nil =>
            rw [List.nil_append] at hwy
            rw [List.append_nil, ← hwy, ← htext]
            exact isPassed_of_none hne ho
          | cons e w =>
            rcases hkind with rfl | rfl
            · rw [List.cons_append, List.cons.injEq] at hwy
              exact absurd (List.append_eq_nil_iff.1 hwy.2.symm).2 hy
            · exact fun _ _ => ⟨e :: w, y, List.suffix_append _ _, List.prefix_append _ _,
                by simp, hy, hwy⟩
        · rw [hf, filled_append, filled_chars, ← hfilled, List.getLast?_append_of_ne_nil u hv]
      · have hu := occurrence?_isUse ho
        obtain ⟨span, htext⟩ := hu.2.exists_span
        have hshort := (occurrence?_shorter ho).1
        have hspan : span ≠ [] := by
          rintro rfl
          rw [htext] at hshort
          exact absurd hshort (Nat.lt_irrefl _)
        obtain ⟨ps, hps, hfilled⟩ := ih rest.length (hl ▸ hshort) (u ++ span) rest rfl
        refine ⟨.found span s :: ps, ?_, fun f => ?_⟩
        · rw [htext]
          exact .found ⟨hu.1, occurrence?_indices ho, htext ▸ hu.2⟩ hps
        · rw [substituteFrom_of_use ho, htext, consumed_append,
            ← List.getLast?_append_of_ne_nil u hspan, hfilled]
          rfl

theorem FindsUse.starts {span rest : List Char} {s : Subscript}
    (h : FindsUse name max u span rest s) : StartsUse name u (span ++ rest) := ⟨h.1, h.2.2.starts⟩

end Dividing

section Printing

/-- A use written out again, with its indices in square brackets. -/
def printed (name : List Char) (s : Subscript) : List Char :=
  name ++ (s.indices.flatMap (fun i => '[' :: (i ++ [']'])) ++
    s.assign.elim [] fun a => a.op.toList ++ '=' :: a.value)

/-- A text with each bracket that closes a `[` written as `]`. -/
def square (cs : List Char) : List Char := mend (· == '[') [] cs

/-- Up to blanks, `y` is `x` with some of the brackets that close a `[` written as `]`, whatever
brackets are open before. -/
structure Squared (x y : List Char) : Prop where
  mended : ∀ st, mend (· == '[') st (compact y) = mend (· == '[') st (compact x)
  stack : ∀ st, opened st (compact y) = opened st (compact x)
  same : ∀ st, mend (· == '[') st (compact x) = compact x → compact y = compact x

variable {i j v w x x' y y' z : List Char} {k c : Char} {stop : Bool} {l : Nat}

theorem compact_append : compact (x ++ y) = compact x ++ compact y := List.filter_append _ _

theorem compact_cons_of_blank (h : isBlank c = true) : compact (c :: x) = compact x :=
  List.filter_cons_of_neg (by simp [h])

theorem compact_cons (h : isBlank c = false) : compact (c :: x) = c :: compact x :=
  List.filter_cons_of_pos (by simp [h])

theorem compact_blank (h : Blank w) : compact w = [] := by
  rw [compact, List.filter_eq_nil_iff]
  simpa [Blank] using h

theorem compact_trim : compact (trim x) = compact x := by
  obtain ⟨a, b, ha, hb, hx, -⟩ := exists_trim x
  conv => rhs; rw [hx]
  rw [compact_append, compact_append, compact_blank ha, compact_blank hb, List.append_nil]
  rfl

theorem level?_compact : level? stop l (compact x) = level? stop l x := by
  induction x generalizing l with
  | nil => rfl
  | cons c x ih =>
    cases hb : isBlank c with
    | true =>
      have hone : level? stop l [c] = some l := level?_blank (by simpa [Blank] using hb)
      rw [compact_cons_of_blank hb, ih, ← List.singleton_append, level?_append, hone]
      rfl
    | false =>
      rw [compact_cons hb, level?_cons, level?_cons]
      congr 1
      funext l
      exact ih

theorem balanced_compact (h : Balanced x) : Balanced (compact x) := level?_compact.trans h

theorem squared_of_eq (h : compact y = compact x) : Squared x y :=
  ⟨fun _ => by rw [h], fun _ => by rw [h], fun _ _ => h⟩

theorem Squared.append (h : Squared x y) (h' : Squared x' y') : Squared (x ++ x') (y ++ y') where
  mended st := by
    rw [compact_append, compact_append, mend_append, mend_append, h.mended, h.stack, h'.mended]
  stack st := by
    rw [compact_append, compact_append, opened_append, opened_append, h.stack, h'.stack]
  same st hst := by
    rw [compact_append, mend_append_eq_self] at hst
    rw [compact_append, compact_append, h.same _ hst.1, h'.same _ hst.2]

/-- An index may be closed by a bracket of any kind. -/
theorem Squared.group (hi : Balanced i) (hk : isClose k = true) (h : Squared i j) :
    Squared ('[' :: (i ++ [k])) ('[' :: (j ++ [']'])) := by
  have hgroup : ∀ {z e}, isClose e = true →
      compact ('[' :: (z ++ [e])) = '[' :: (compact z ++ [e]) := by
    intro z e he
    have hb : isBlank e = false := by
      simp only [isClose, Bool.or_eq_true, beq_iff_eq] at he
      rcases he with (rfl | rfl) | rfl <;> rfl
    rw [compact_cons rfl, compact_append, compact_cons hb]
    rfl
  -- The index leaves the bracket on top that was opened for it.
  have hopen : ∀ st, opened st (compact i) = st := fun st => (balanced_compact hi).opened
  have hopen' : ∀ st, opened st (compact j) = st := fun st => (h.stack st).trans (hopen st)
  refine ⟨fun st => ?_, fun st => ?_, fun st hst => ?_⟩
  · rw [hgroup hk, hgroup rfl, mend_bracket rfl rfl rfl (hopen' _),
      mend_bracket rfl hk rfl (hopen _), h.mended]
  · rw [hgroup hk, hgroup rfl, opened_bracket rfl rfl (hopen' _), opened_bracket rfl hk (hopen _)]
  · rw [hgroup hk, mend_bracket rfl hk rfl (hopen _), List.cons.injEq] at hst
    obtain ⟨hsame, hlast⟩ := List.append_inj hst.2 length_mend
    rw [hgroup hk, hgroup rfl, h.same _ hsame, ← hlast]
    rfl

variable {name g cs rest : List Char} {max : Nat} {b : Option Char} {is : List (List Char)}
  {s : Subscript} {m : List Char → List Char}

theorem Squared.of_compact (hx : compact z = compact x) (h : Squared x y) : Squared z y :=
  ⟨fun st => hx ▸ h.mended st, fun st => hx ▸ h.stack st, fun st => hx ▸ h.same st⟩

theorem Indices.squared (hg : Indices is g) (hi : ∀ i ∈ is, Squared i (m i)) :
    Squared g ((is.map m).flatMap fun i => '[' :: (i ++ [']'])) := by
  induction hg with
  | nil => exact squared_of_eq rfl
  | @cons blanks i k is g hb hbal hk hg ih =>
    have hrest := ih fun j hj => hi j (List.mem_cons_of_mem _ hj)
    have hall := (((hi i List.mem_cons_self).group hbal hk).append hrest).of_compact
      (z := blanks ++ ('[' :: (i ++ [k]) ++ g)) (by rw [compact_append, compact_blank hb]; rfl)
    simpa using hall

theorem Sign.eq {op : Option Char} {sign : List Char} (h : Sign op sign) :
    sign = op.toList ++ ['='] := by
  cases h <;> rfl

/-- A use is reproduced if its parts are. -/
theorem IsUse.squared (hu : IsUse name s cs rest) (hi : ∀ i ∈ s.indices, Squared i (m i))
    (ha : ∀ a ∈ s.assign, Squared a.value (m a.value)) :
    ∃ span, cs = span ++ rest ∧ Squared span (printed name (s.map m)) := by
  cases hu with
  | @load is g _ hg _ =>
    refine ⟨name ++ (g ++ []), by simp, ?_⟩
    exact (squared_of_eq rfl).append ((hg.squared hi).append (squared_of_eq rfl))
  | @store is g blanks sign v _ op _ hg _ hb hs hv hr =>
    have hvalue : Squared v (m (trim v)) := (ha _ rfl).of_compact compact_trim.symm
    have hsign : Squared (blanks ++ sign) (op.toList ++ ['=']) :=
      squared_of_eq (by rw [← hs.eq, compact_append, compact_blank hb, List.nil_append])
    refine ⟨name ++ (g ++ ((blanks ++ sign) ++ v)), by simp, ?_⟩
    have hall := (squared_of_eq rfl : Squared name name).append
      ((hg.squared hi).append (hsign.append hvalue))
    simpa [printed, Subscript.map] using hall

/-- Writing the uses of a text out again changes nothing but blanks and the kinds of brackets that
close a `[`. -/
theorem squared_substituteFrom (name : List Char) (max : Nat) (b : Option Char) (cs : List Char) :
    Squared cs (substituteFrom name max (printed name) b cs) := by
  induction hl : cs.length using Nat.strongRecOn generalizing b cs with
  | _ l ih =>
    cases cs with
    | nil =>
      rw [substituteFrom_nil]
      exact squared_of_eq rfl
    | cons c r =>
      rcases ho : occurrence? name max b (c :: r) with _ | ⟨s, rest⟩
      · obtain ⟨v, rest, htext, hv, -, hf⟩ := substituteFrom_pass ho
        have hlen : rest.length < l := hl ▸ length_lt_of_span htext hv
        rw [hf, htext]
        exact (squared_of_eq rfl).append (ih rest.length hlen _ rest rfl)
      · obtain ⟨hrest, hi, ha⟩ := occurrence?_shorter ho
        obtain ⟨span, htext, hspan⟩ := (occurrence?_isUse ho).2.squared
          (m := substituteFrom name max (printed name) none)
          (fun i hm => ih _ (hl ▸ hi i hm) none i rfl) fun a hm => ih _ (hl ▸ ha a hm) none _ rfl
        rw [substituteFrom_of_use ho]
        nth_rewrite 1 [htext]
        exact hspan.append (ih rest.length (hl ▸ hrest) _ rest rfl)

end Printing

section Main

/-- Substitution loses and duplicates nothing. Uses that are written out again give the text back up
to blanks, with `]` for every bracket that closes a `[`, and as it was if each such bracket is a
`]`. What is not a use is copied, whatever the uses are replaced by, and a text in which no use
starts stays as it is. Levels are counted without a bound here; below `2 ^ 31` characters the same
is true of counters of 32 bits (`ByOffset.substitute?_divides`). -/
theorem substitute_reproduces (name : List Char) (hne : name ≠ []) (max : Nat) (text : List Char) :
    square (compact (substitute name max (printed name) text)) = square (compact text) ∧
      (square (compact text) = compact text →
        compact (substitute name max (printed name) text) = compact text) ∧
      (∃ ps : List (Piece Subscript), ps.flatMap Piece.text = text ∧
        Divides (FindsUse name max) (IsPassed name max) [] text ps ∧
        ∀ f, substitute name max f text =
          filled (fun s => f (s.map (substitute name max f))) ps) ∧
      ((∀ u x, text = u ++ x → ¬ StartsUse name u x) → ∀ f, substitute name max f text = text) := by
  have hsquared := squared_substituteFrom name max none text
  obtain ⟨ps, hps, hfilled⟩ := divides_substituteFrom hne max [] text
  refine ⟨hsquared.mended [], hsquared.same [], ⟨ps, hps.text, hps, hfilled⟩, fun hno f => ?_⟩
  refine (hfilled f).trans (hps.filled_eq fun u x htext span rest s hx hfinds => ?_)
  exact hno u x htext (hx ▸ hfinds.starts)

theorem substitute_reproduces_unclosed :
    let name := "a".toList
    let text := "x.a[0]; a [ a[1) ] [2\x7d += a[3 ); a[".toList
    let other := "a [ (i] ] *= a[1] ; b".toList
    (name ≠ [] ∧ square (compact other) = compact other) ∧
    square (compact (substitute name 2 (printed name) text)) = square (compact text) ∧
      (∃ ps : List (Piece Subscript), ps.flatMap Piece.text = text ∧
        ∀ f, substitute name 2 f text = filled (fun s => f (s.map (substitute name 2 f))) ps) ∧
      compact (substitute name 2 (printed name) other) = compact other := by
  intro name text other
  have hne : name ≠ [] := by decide
  have hother : square (compact other) = compact other := by decide
  obtain ⟨hsquare, -, ⟨ps, htext, -, hfilled⟩, -⟩ := substitute_reproduces name hne 2 text
  exact ⟨⟨hne, hother⟩, hsquare, ⟨ps, htext, hfilled⟩,
    (substitute_reproduces name hne 2 other).2.1 hother⟩

/-- An index that a round bracket closes is written out again with a square one. -/
theorem substitute_printed_round :
    substitute "a".toList 1 (printed "a".toList) "a[0)".toList = "a[0]".toList ∧
      compact (substitute "a".toList 1 (printed "a".toList) "a[0)".toList) ≠
        compact "a[0)".toList := by
  decide +kernel

end Main

end ComputeKernel.Body
