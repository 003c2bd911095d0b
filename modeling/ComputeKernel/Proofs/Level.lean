import ComputeKernel.Body.Subscript

/-!
# Levels of a text

The level of a place in a text is the number of brackets that are open there. A text is balanced if
it comes back to the level where it starts and never sinks below it. What `splitClose` and
`splitValue` find depends on levels only, so a balanced text in front of what they look for is part
of what they find, whatever follows. Trimming takes blanks away from both ends and leaves a text
that begins and ends with something else.
-/

namespace ComputeKernel.Text

section Levels

/-- Whether a value ends before a character that stands at its own level. -/
def isStop (c : Char) : Bool := isClose c || c == ';'

/-- The level after a character, unless it is below level 0. With `stop` there may be no `;` at
level 0 either. -/
def levelStep? (stop : Bool) (l : Nat) (c : Char) : Option Nat :=
  if isOpen c then some (l + 1)
  else if isClose c then if l = 0 then none else some (l - 1)
  else if stop && c == ';' && l == 0 then none
  else some l

/-- The level that a text leads to. -/
def level? (stop : Bool) (l : Nat) (cs : List Char) : Option Nat := cs.foldlM (levelStep? stop) l

/-- A text whose brackets, of whatever kind, match. -/
def Balanced (cs : List Char) : Prop := level? false 0 cs = some 0

/-- A balanced text without a `;` outside its brackets. -/
def IsValue (cs : List Char) : Prop := level? true 0 cs = some 0

instance (cs : List Char) : Decidable (Balanced cs) := inferInstanceAs (Decidable (_ = _))

instance (cs : List Char) : Decidable (IsValue cs) := inferInstanceAs (Decidable (_ = _))

variable {stop stop' : Bool} {l l' m n : Nat} {k : Char} {x y r rest inside : List Char}

theorem not_open_of_close (h : isClose k = true) : isOpen k = false := by
  simp only [isClose, Bool.or_eq_true, beq_iff_eq] at h
  rcases h with (rfl | rfl) | rfl <;> rfl

theorem not_close_of_open (h : isOpen k = true) : isClose k = false := by
  simp only [isOpen, Bool.or_eq_true, beq_iff_eq] at h
  rcases h with (rfl | rfl) | rfl <;> rfl

theorem level?_cons {c : Char} :
    level? stop l (c :: x) = (levelStep? stop l c).bind (level? stop · x) :=
  List.foldlM_cons

/-- The ways to go over a character. -/
theorem level?_cons_cases {c : Char} (h : level? stop l (c :: x) = some m) :
    isOpen c = true ∧ level? stop (l + 1) x = some m ∨
      isOpen c = false ∧ isClose c = true ∧ 0 < l ∧ level? stop (l - 1) x = some m ∨
      isOpen c = false ∧ isClose c = false ∧ (stop && c == ';' && l == 0) = false ∧
        level? stop l x = some m := by
  rw [level?_cons] at h
  obtain ⟨l₁, hc, h⟩ := Option.bind_eq_some_iff.1 h
  unfold levelStep? at hc
  split at hc
  · rename_i ho
    cases hc
    exact .inl ⟨ho, h⟩
  · rename_i ho
    rw [Bool.not_eq_true] at ho
    split at hc
    · rename_i hcl
      split at hc <;> cases hc
      exact .inr (.inl ⟨ho, hcl, by omega, h⟩)
    · rename_i hcl
      split at hc <;> cases hc
      simp_all

theorem level?_append : level? stop l (x ++ y) = (level? stop l x).bind (level? stop · y) :=
  List.foldlM_append

theorem levelStep?_add {c : Char} (h : levelStep? stop l c = some m)
    (hs : stop' = true → stop = true ∨ 0 < n) : levelStep? stop' (l + n) c = some (m + n) := by
  unfold levelStep? at h ⊢
  grind

/-- A text stands on a higher level as well. There a `;` may be anywhere. -/
theorem level?_add (h : level? stop l x = some m) (hs : stop' = true → stop = true ∨ 0 < n) :
    level? stop' (l + n) x = some (m + n) := by
  induction x generalizing l with
  | nil =>
    cases h
    rfl
  | cons c x ih =>
    rw [level?_cons] at h ⊢
    obtain ⟨l₁, hc, h⟩ := Option.bind_eq_some_iff.1 h
    rw [levelStep?_add hc hs]
    exact ih h

theorem IsValue.balanced (h : IsValue x) : Balanced x :=
  level?_add (n := 0) h (by simp)

theorem Balanced.level (h : Balanced x) (hl : stop = true → 0 < l) : level? stop l x = some l := by
  simpa using level?_add (n := l) h fun hs => .inr (hl hs)

theorem Balanced.append (hx : Balanced x) (hy : Balanced y) : Balanced (x ++ y) := by
  unfold Balanced
  rw [level?_append, show level? false 0 x = some 0 from hx]
  exact hy

theorem IsValue.level (h : IsValue x) : level? stop l x = some l := by
  simpa using level?_add (n := l) h fun _ => .inl rfl

theorem levelStep?_lower {c : Char} (h : levelStep? stop l c = some l') (hm : m ≤ l) :
    levelStep? stop m c = none ∨ ∃ m' ≤ l', levelStep? stop m c = some m' := by
  unfold levelStep? at h ⊢
  grind

/-- A text that goes down to level 0 and then further sinks below 0 from any lower level. -/
theorem level?_stop (h : level? stop l x = some 0) (hm : m ≤ l)
    (hk : isClose k = true ∨ stop = true ∧ k = ';') : level? stop m (x ++ k :: y) = none := by
  induction x generalizing l m with
  | nil =>
    cases h
    obtain rfl : m = 0 := by omega
    have hn : levelStep? stop 0 k = none := by
      rcases hk with hk | ⟨rfl, rfl⟩
      · simp [levelStep?, hk, not_open_of_close hk]
      · rfl
    rw [List.nil_append, level?_cons, hn]
    rfl
  | cons c x ih =>
    rw [level?_cons] at h
    obtain ⟨l₁, hc, h⟩ := Option.bind_eq_some_iff.1 h
    rw [List.cons_append, level?_cons]
    rcases levelStep?_lower hc hm with hn | ⟨m', hm', hs⟩
    · rw [hn]
      rfl
    · rw [hs]
      exact ih h hm'

end Levels

section Splitting

variable {stop : Bool} {l m : Nat} {k : Char} {x y r rest inside : List Char}

theorem splitClose_level (h : splitClose l r = some (inside, rest)) :
    level? false l inside = some 0 ∧ ∃ k, isClose k = true ∧ r = inside ++ k :: rest := by
  refine ⟨?_, splitClose_eq h⟩
  induction r generalizing l inside with
  | nil => simp [splitClose] at h
  | cons c r ih =>
    rw [splitClose] at h
    split at h
    · rename_i ho
      obtain ⟨⟨a, t⟩, hp, he⟩ := Option.map_eq_some_iff.1 h
      cases he
      simpa [level?_cons, levelStep?, ho] using ih hp
    · rename_i ho
      split at h
      · rename_i hc
        split at h
        · rename_i hl
          cases h
          rw [hl]
          rfl
        · rename_i hl
          obtain ⟨⟨a, t⟩, hp, he⟩ := Option.map_eq_some_iff.1 h
          cases he
          simpa [level?_cons, levelStep?, ho, hc, hl] using ih hp
      · rename_i hc
        obtain ⟨⟨a, t⟩, hp, he⟩ := Option.map_eq_some_iff.1 h
        cases he
        simpa [level?_cons, levelStep?, ho, hc] using ih hp

theorem splitClose_of_level (h : level? false l x = some 0) (hk : isClose k = true) :
    splitClose l (x ++ k :: y) = some (x, y) := by
  induction x generalizing l with
  | nil =>
    cases h
    simp [splitClose, hk, not_open_of_close hk]
  | cons c x ih =>
    rw [List.cons_append, splitClose]
    rcases level?_cons_cases h with ⟨ho, h⟩ | ⟨ho, hc, hl, h⟩ | ⟨ho, hc, -, h⟩
    · simp [ho, ih h]
    · simp [ho, hc, ih h, Nat.ne_of_gt hl]
    · simp [ho, hc, ih h]

/-- A text that goes down to level 0 has a place where it leaves a higher level. -/
theorem exists_splitClose (h : level? stop l x = some 0) (hm : m < l) :
    ∃ inside k rest, isClose k = true ∧ x = inside ++ k :: rest ∧
      level? false m inside = some 0 ∧ level? stop (l - m - 1) rest = some 0 := by
  induction x generalizing l m with
  | nil =>
    cases h
    omega
  | cons c x ih =>
    rcases level?_cons_cases h with ⟨ho, h⟩ | ⟨ho, hc, hl, h⟩ | ⟨ho, hc, -, h⟩
    · obtain ⟨inside, k, rest, hk, rfl, hi, hr⟩ := ih h (m := m + 1) (by omega)
      refine ⟨c :: inside, k, rest, hk, rfl, by simpa [level?_cons, levelStep?, ho] using hi, ?_⟩
      rwa [show l - m - 1 = l + 1 - (m + 1) - 1 by omega]
    · rcases Nat.eq_zero_or_pos m with rfl | hm0
      · exact ⟨[], c, x, hc, rfl, rfl, h⟩
      · obtain ⟨inside, k, rest, hk, rfl, hi, hr⟩ := ih h (m := m - 1) (by omega)
        refine ⟨c :: inside, k, rest, hk, rfl, ?_, ?_⟩
        · simpa [level?_cons, levelStep?, ho, hc, Nat.ne_of_gt hm0] using hi
        · rwa [show l - m - 1 = l - 1 - (m - 1) - 1 by omega]
    · obtain ⟨inside, k, rest, hk, rfl, hi, hr⟩ := ih h hm
      exact ⟨c :: inside, k, rest, hk, rfl, by simpa [level?_cons, levelStep?, ho, hc] using hi, hr⟩

/-- A value ends at the end of the text or before a character that stops it. -/
theorem splitValue_level (l : Nat) (r : List Char) :
    ∃ m, level? true l (splitValue l r).1 = some m ∧ ((splitValue l r).2 = [] ∨
      m = 0 ∧ ∃ k rest, (splitValue l r).2 = k :: rest ∧ isStop k = true) := by
  induction r generalizing l with
  | nil => exact ⟨l, rfl, .inl rfl⟩
  | cons c r ih =>
    rw [splitValue]
    split
    · rename_i ho
      simpa [level?_cons, levelStep?, ho] using ih (l + 1)
    · rename_i ho
      split
      · rename_i hc
        split
        · rename_i hl
          exact ⟨0, by rw [hl]; rfl, .inr ⟨rfl, c, r, rfl, by simp [isStop, hc]⟩⟩
        · rename_i hl
          simpa [level?_cons, levelStep?, ho, hc, hl] using ih (l - 1)
      · rename_i hc
        split
        · rename_i hs
          simp only [Bool.and_eq_true, beq_iff_eq] at hs
          exact ⟨0, by rw [hs.2]; rfl, .inr ⟨rfl, c, r, rfl, by simp [isStop, hs.1]⟩⟩
        · rename_i hs
          have hstep : levelStep? true l c = some l := by
            unfold levelStep?
            rw [if_neg ho, if_neg hc, Bool.true_and, if_neg hs]
          simpa only [level?_cons, hstep, Option.bind_some] using ih l

theorem splitValue_of_level (h : level? true l x = some 0) (hk : isStop k = true) :
    splitValue l (x ++ k :: y) = (x, k :: y) := by
  induction x generalizing l with
  | nil =>
    cases h
    simp only [isStop, Bool.or_eq_true, beq_iff_eq] at hk
    rcases hk with hk | rfl
    · simp [splitValue, hk, not_open_of_close hk]
    · rfl
  | cons c x ih =>
    rw [List.cons_append, splitValue]
    rcases level?_cons_cases h with ⟨ho, h⟩ | ⟨ho, hc, hl, h⟩ | ⟨ho, hc, hs, h⟩
    · simp [ho, ih h]
    · simp [ho, hc, ih h, Nat.ne_of_gt hl]
    · rw [Bool.true_and] at hs
      simp only [ho, hc, hs, ih h, Bool.false_eq_true, if_false]

/-- A value that ends within a text ends there whatever follows. -/
theorem splitValue_append_of_ne (h : (splitValue l x).2 ≠ []) :
    splitValue l (x ++ y) = ((splitValue l x).1, (splitValue l x).2 ++ y) := by
  obtain ⟨m, hv, hr⟩ := splitValue_level l x
  obtain ⟨rfl, k, rest, hr, hk⟩ := hr.resolve_left h
  have hx : x = (splitValue l x).1 ++ k :: rest := by rw [← hr, splitValue_append]
  rw [hr, List.cons_append]
  conv => lhs; rw [hx, List.append_assoc, List.cons_append]
  exact splitValue_of_level hv hk

end Splitting

section Trimming

/-- A text of blanks. -/
def Blank (cs : List Char) : Prop := ∀ c ∈ cs, isBlank c = true

/-- A text that neither begins nor ends with a blank. -/
structure Trimmed (cs : List Char) : Prop where
  head : cs.head?.any isBlank = false
  last : cs.getLast?.any isBlank = false

variable {a b x : List Char}

theorem blank_nil : Blank [] := by simp [Blank]

theorem Blank.append (ha : Blank a) (hb : Blank b) : Blank (a ++ b) := fun c hc =>
  (List.mem_append.1 hc).elim (ha c) (hb c)

theorem blank_cons {c : Char} : Blank (c :: a) ↔ isBlank c = true ∧ Blank a := by
  simp [Blank]

theorem trimStart_append (ha : Blank a) : trimStart (a ++ x) = trimStart x :=
  List.dropWhile_append_of_pos ha

theorem trimStart_of_head (h : x.head?.any isBlank = false) : trimStart x = x := by
  cases x with
  | nil => rfl
  | cons c x =>
    have hc : isBlank c = false := by simpa using h
    simp [trimStart, hc]

theorem exists_trimStart (x : List Char) : ∃ a, Blank a ∧ x = a ++ trimStart x ∧
    (trimStart x).head?.any isBlank = false := by
  refine ⟨x.takeWhile isBlank, List.all_eq_true.1 List.all_takeWhile,
    List.takeWhile_append_dropWhile.symm, ?_⟩
  rcases ht : trimStart x with _ | ⟨c, r⟩
  · rfl
  · have hc := List.head?_dropWhile_not isBlank x
    rw [show x.dropWhile isBlank = c :: r from ht] at hc
    simpa using hc

theorem trimEnd_of_last (h : x.getLast?.any isBlank = false) : trimEnd x = x := by
  induction x with
  | nil => rfl
  | cons c x ih =>
    cases x with
    | nil =>
      have hc : isBlank c = false := by simpa using h
      simp [trimEnd, hc]
    | cons c' x =>
      rw [List.getLast?_cons_cons] at h
      rw [trimEnd, ih h]

theorem trimEnd_blank (hb : Blank b) : trimEnd b = [] := by
  induction b with
  | nil => rfl
  | cons c b ih =>
    obtain ⟨hc, hb⟩ := blank_cons.1 hb
    rw [trimEnd, ih hb]
    simp [hc]

theorem trimEnd_append (hb : Blank b) : trimEnd (x ++ b) = trimEnd x := by
  induction x with
  | nil => exact trimEnd_blank hb
  | cons c x ih => rw [List.cons_append, trimEnd, trimEnd, ih]

theorem exists_trimEnd (x : List Char) : ∃ b, Blank b ∧ x = trimEnd x ++ b ∧
    (trimEnd x).getLast?.any isBlank = false ∧ (trimEnd x = [] ∨ (trimEnd x).head? = x.head?) := by
  induction x with
  | nil => exact ⟨[], blank_nil, rfl, rfl, .inl rfl⟩
  | cons c x ih =>
    obtain ⟨b, hb, hx, hl, -⟩ := ih
    rw [trimEnd]
    rcases ht : trimEnd x with _ | ⟨c', r⟩ <;> rw [ht] at hx hl
    · cases hc : isBlank c with
      | true => exact ⟨c :: b, blank_cons.2 ⟨hc, hb⟩, by rw [hx]; rfl, rfl, .inl rfl⟩
      | false => exact ⟨b, hb, by rw [hx]; rfl, by simpa using hc, .inr rfl⟩
    · exact ⟨b, hb, by rw [hx]; rfl, by simpa using hl, .inr rfl⟩

/-- Trimming takes away blanks only, and all of them. -/
theorem exists_trim (x : List Char) : ∃ a b, Blank a ∧ Blank b ∧ x = a ++ trim x ++ b ∧
    Trimmed (trim x) := by
  obtain ⟨a, ha, hx, hh⟩ := exists_trimStart x
  obtain ⟨b, hb, ht, hl, hhead⟩ := exists_trimEnd (trimStart x)
  refine ⟨a, b, ha, hb, ?_, ?_, hl⟩
  · rw [List.append_assoc]
    exact hx.trans (congrArg (a ++ ·) ht)
  · rcases hhead with hn | hh'
    · rw [show trim x = [] from hn]
      rfl
    · rwa [show (trim x).head? = _ from hh']

theorem trim_append (ha : Blank a) (hb : Blank b) (h : Trimmed x) : trim (a ++ x ++ b) = x := by
  unfold trim
  rw [List.append_assoc, trimStart_append ha]
  cases x with
  | nil =>
    have hn := trimStart_append (x := []) hb
    rw [List.append_nil] at hn
    rw [List.nil_append, hn]
    rfl
  | cons c x =>
    rw [trimStart_of_head (by simpa using h.head), trimEnd_append hb, trimEnd_of_last h.last]

end Trimming

end ComputeKernel.Text
