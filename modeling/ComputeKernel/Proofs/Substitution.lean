import ComputeKernel.Proofs.Level

/-!
# Substitution of uses

What `substituteFrom` makes of a text, for a name that is an identifier. A character is copied
unless a use starts at it (`substituteFrom_cons`), and all properties of the result are proved by
induction along that equation (`substituteFrom_induct`). A balanced text in front of a character
that stops a value is replaced as if it stood alone (`substituteFrom_stop`).
-/

namespace ComputeKernel.Body

open Text

section Characters

variable {c : Char}

theorem not_blank_of_ident (h : isIdent c = true) : isBlank c = false := by
  have within : ∀ {a b : UInt32}, 48 ≤ a.toNat → b.toNat ≤ 122 →
      a ≤ c.val ∧ c.val ≤ b → 48 ≤ c.toNat ∧ c.toNat ≤ 122 := by
    intro a b ha hb h
    exact ⟨Nat.le_trans ha (UInt32.le_iff_toNat_le.1 h.1),
      Nat.le_trans (UInt32.le_iff_toNat_le.1 h.2) hb⟩
  have hc : 48 ≤ c.toNat ∧ c.toNat ≤ 122 := by
    rcases Bool.or_eq_true_iff.1 h with h | h
    · rcases Bool.or_eq_true_iff.1 h with h | hdigit
      · rcases Bool.or_eq_true_iff.1 h with hupper | hlower
        · exact within (by decide) (by decide) (of_decide_eq_true hupper)
        · exact within (by decide) (by decide) ((Bool.and_eq_true_iff.1 hlower).imp
            of_decide_eq_true of_decide_eq_true)
      · exact within (by decide) (by decide) ((Bool.and_eq_true_iff.1 hdigit).imp
          of_decide_eq_true of_decide_eq_true)
    · rw [beq_iff_eq.1 h]
      decide
  simp [isBlank]
  omega

/-- The characters that have a part of their own in what follows a name. -/
def isMark (c : Char) : Bool := isOpen c || isStop c || isOperator c || c == '=' || c == '.'

theorem not_mark {p : Char → Bool} (hp : ['(', '[', '{', ')', ']', '}', ';', '+', '-', '*', '/',
    '=', '.'].any p = false) (h : p c = true) : isMark c = false := by
  cases hm : isMark c with
  | false => rfl
  | true =>
    have hc : c ∈ ['(', '[', '{', ')', ']', '}', ';', '+', '-', '*', '/', '=', '.'] := by
      simpa [isMark, isOpen, isStop, isClose, isOperator, or_assoc] using hm
    exact absurd h (List.any_eq_false.1 hp c hc)

theorem not_mark_of_ident (h : isIdent c = true) : isMark c = false := not_mark (by decide) h

theorem not_mark_of_blank (h : isBlank c = true) : isMark c = false := not_mark (by decide) h

theorem mark_eq_false (h : isMark c = false) : isOpen c = false ∧ isClose c = false ∧ c ≠ ';' ∧
    isOperator c = false ∧ c ≠ '=' ∧ c ≠ '.' := by
  simpa [isMark, isStop, and_assoc] using h

end Characters

section Shapes

/-- Bracketed indices as they are written. -/
inductive Indices : List (List Char) → List Char → Prop
  | nil : Indices [] []
  | cons {blanks i : List Char} {k : Char} {is : List (List Char)} {g : List Char}
    (hb : Blank blanks) (hi : Balanced i) (hk : isClose k = true) (h : Indices is g) :
    Indices (i :: is) (blanks ++ '[' :: (i ++ k :: g))

/-- The signs of an assignment. -/
inductive Sign : Option Char → List Char → Prop
  | plain : Sign none ['=']
  | joined {c : Char} (h : isOperator c = true) : Sign (some c) [c, '=']

/-- A use of a name as it is written, with what follows it. -/
inductive IsUse (name : List Char) : Subscript → List Char → List Char → Prop
  | load {is : List (List Char)} {g rest : List Char} (hi : Indices is g) (hn : is ≠ []) :
    IsUse name ⟨is, none⟩ (name ++ (g ++ rest)) rest
  /-- The value goes on to the end of the text, or to a character that stops it. -/
  | store {is : List (List Char)} {g blanks sign v rest : List Char} {op : Option Char} {m : Nat}
    (hi : Indices is g) (hn : is ≠ []) (hb : Blank blanks) (hs : Sign op sign)
    (hv : level? true 0 v = some m) (hr : rest = [] ∨ m = 0 ∧ rest.head?.any isStop = true) :
    IsUse name ⟨is, some ⟨op, trim v⟩⟩ (name ++ (g ++ (blanks ++ (sign ++ (v ++ rest))))) rest

variable {max : Nat} {name cs rest r : List Char} {is : List (List Char)} {op : Option Char}

theorem indexGroups_eq (h : indexGroups max cs = (is, rest)) :
    ∃ g, Indices is g ∧ cs = g ++ rest := by
  induction max generalizing cs is rest with
  | zero =>
    cases h
    exact ⟨[], .nil, rfl⟩
  | succ max ih =>
    obtain ⟨blanks, hb, hcs, -⟩ := exists_trimStart cs
    rw [indexGroups] at h
    split at h
    · rename_i r ht
      split at h
      · rename_i inside rest' hc
        obtain ⟨hl, k, hk, rfl⟩ := splitClose_level hc
        rcases hg : indexGroups max rest' with ⟨is', rest''⟩
        rw [hg] at h
        cases h
        obtain ⟨g, hi, rfl⟩ := ih hg
        refine ⟨_, .cons hb hl hk hi, ?_⟩
        rw [hcs, ht]
        simp
      · cases h
        exact ⟨[], .nil, rfl⟩
    · cases h
      exact ⟨[], .nil, rfl⟩

theorem assignSign?_eq (h : assignSign? cs = some (op, r)) :
    ∃ blanks sign, Blank blanks ∧ Sign op sign ∧ cs = blanks ++ (sign ++ r) := by
  obtain ⟨blanks, hb, hcs, -⟩ := exists_trimStart cs
  unfold assignSign? at h
  split at h
  · cases h
  · rename_i ht
    cases h
    exact ⟨blanks, _, hb, .plain, hcs.trans (by rw [ht]; rfl)⟩
  · rename_i ht
    split at h
    · rename_i ho
      cases h
      exact ⟨blanks, _, hb, .joined ho, hcs.trans (by rw [ht]; rfl)⟩
    · cases h
  · cases h

/-- What `occurrence?` reads is a use. -/
theorem occurrence?_isUse {b : Option Char} {s : Subscript}
    (h : occurrence? name max b cs = some (s, rest)) :
    joinsName b = false ∧ IsUse name s cs rest := by
  unfold occurrence? at h
  split at h
  · cases h
  split at h
  · cases h
  rename_i r hr
  obtain rfl := after?_eq_some hr
  split at h
  · cases h
  rename_i hj
  rw [Bool.or_eq_true, not_or, Bool.not_eq_true, Bool.not_eq_true] at hj
  refine ⟨hj.1, ?_⟩
  split at h
  · cases h
  rename_i i is rest' hg
  obtain ⟨g, hi, rfl⟩ := indexGroups_eq hg
  split at h
  · rename_i a rest'' ha
    cases h
    obtain ⟨⟨op, r⟩, hs, he⟩ := Option.map_eq_some_iff.1 ha
    cases he
    obtain ⟨blanks, sign, hb, hsign, rfl⟩ := assignSign?_eq hs
    obtain ⟨m, hv, hrest⟩ := splitValue_level 0 r
    have hr := splitValue_append 0 r
    conv =>
      arg 3
      rw [← hr]
    refine .store hi (by simp) hb hsign hv (hrest.imp_right fun hstops => ?_)
    obtain ⟨hm, k, rest, hk, hstop⟩ := hstops
    exact ⟨hm, by simp [hk, hstop]⟩
  · cases h
    exact .load hi (by simp)

end Shapes

section Scanning

/-- A use with its indices and its value replaced. -/
def Subscript.map (g : List Char → List Char) (s : Subscript) : Subscript :=
  ⟨s.indices.map g, s.assign.map fun a => ⟨a.op, g a.value⟩⟩

theorem Subscript.forall_map {P Q : List Char → Prop} {g : List Char → List Char} (s : Subscript)
    (hi : ∀ i ∈ s.indices, P (g i)) (ha : ∀ a ∈ s.assign, Q (g a.value)) :
    (∀ i ∈ (s.map g).indices, P i) ∧ ∀ a ∈ (s.map g).assign, Q a.value := by
  constructor
  · simpa [Subscript.map] using hi
  · intro a' ha'
    obtain ⟨a, hm, rfl⟩ := Option.map_eq_some_iff.1 ha'
    exact ha a hm

variable {name : List Char} {max : Nat} {f : Subscript → List Char} {b b' : Option Char} {c : Char}
  {cs r rest : List Char} {s : Subscript}

theorem joinsName_of_ident (h : isIdent c = true) : joinsName (some c) = true := by
  simp [joinsName, h]

theorem joinsName_of_mark (h : isMark c = true) (hd : c ≠ '.') : joinsName (some c) = false := by
  cases hi : isIdent c with
  | true => simp [not_mark_of_ident hi] at h
  | false => simp [joinsName, hi, hd]

theorem joinsName_of_stop (h : isStop c = true) : joinsName (some c) = false := by
  refine joinsName_of_mark (by simp [isMark, h]) ?_
  rintro rfl
  cases h

theorem occurrence?_of_joins (h : joinsName b = true) : occurrence? name max b cs = none := by
  unfold occurrence?
  simp only [h, Bool.true_or, if_true]
  cases name with
  | nil => rfl
  | cons n ns => cases after? (n :: ns) cs <;> rfl

theorem occurrence?_congr (h : joinsName b = joinsName b') :
    occurrence? name max b cs = occurrence? name max b' cs := by
  unfold occurrence?
  rw [h]

theorem occurrence?_of_not_start (hn : isIdentifier name = true) (hc : isIdentStart c = false) :
    occurrence? name max b (c :: r) = none := by
  obtain ⟨n, ns, rfl, hs, -⟩ := identifier_cons hn
  have hne : n ≠ c := by
    rintro rfl
    simp [hs] at hc
  simp [occurrence?, after?, hne]

theorem Indices.getLast? {is : List (List Char)} {g : List Char} (h : Indices is g) (hn : is ≠ []) :
    ∃ k, isClose k = true ∧ g.getLast? = some k := by
  induction h with
  | nil => exact absurd rfl hn
  | @cons blanks i k is g hb hi hk h ih =>
    cases is with
    | nil =>
      cases h
      exact ⟨k, hk, by simp [List.getLast?_cons]⟩
    | cons j is =>
      obtain ⟨k', hk', hl⟩ := ih (by simp)
      refine ⟨k', hk', ?_⟩
      simp [List.getLast?_append, List.getLast?_cons, hl]

theorem substituteFrom_nil : substituteFrom name max f b [] = [] := by
  rw [substituteFrom]

theorem substituteFrom_of_use (h : occurrence? name max b cs = some (s, rest)) :
    substituteFrom name max f b cs = f (s.map (substituteFrom name max f none)) ++
      substituteFrom name max f (consumed cs rest).getLast? rest := by
  cases cs with
  | nil =>
    unfold occurrence? at h
    cases name <;> simp [after?] at h
  | cons c r =>
    rw [substituteFrom]
    split
    · rename_i s' rest' h'
      cases h.symm.trans h'
      simp [Subscript.map]
    · rename_i h'
      cases h.symm.trans h'

/-- A character is copied unless a use starts at it. -/
theorem substituteFrom_copy (hn : isIdentifier name = true)
    (h : occurrence? name max b (c :: r) = none) :
    substituteFrom name max f b (c :: r) = c :: substituteFrom name max f (some c) r := by
  induction hl : r.length using Nat.strongRecOn generalizing c r b with
  | _ l ih =>
    rw [substituteFrom]
    split
    · rename_i h'
      cases h.symm.trans h'
    split
    · rename_i rest ha
      split
      · obtain ⟨n, ns, rfl, hs, hi⟩ := identifier_cons hn
        obtain ⟨rfl, rfl⟩ : c = n ∧ r = ns ++ rest := by simpa using after?_eq_some ha
        -- The rest of the name follows an identifier character, so no use starts within it.
        have copy : ∀ (u : List Char) (e : Char), isIdent e = true → (∀ c ∈ u, isIdent c = true) →
            u.length ≤ ns.length → substituteFrom (c :: ns) max f (some e) (u ++ rest) =
              u ++ substituteFrom (c :: ns) max f (e :: u).getLast? rest := by
          intro u
          induction u with
          | nil => simp
          | cons d u ihu =>
            intro e he hu hlen
            have hd : isIdent d = true := hu d List.mem_cons_self
            have hlt : (u ++ rest).length < l := by
              rw [← hl, List.length_append, List.length_append]
              simp at hlen
              omega
            rw [List.cons_append, ih _ hlt (occurrence?_of_joins (joinsName_of_ident he)) rfl,
              ihu d hd (fun c hc => hu c (List.mem_cons_of_mem _ hc)) (by simp at hlen; omega),
              List.getLast?_cons_cons]
            rfl
        rw [copy ns c (isIdent_of_start hs) hi (Nat.le_refl _)]
        rfl
      · rfl
    · rfl

theorem substituteFrom_congr (hn : isIdentifier name = true) (h : joinsName b = joinsName b') :
    substituteFrom name max f b cs = substituteFrom name max f b' cs := by
  cases cs with
  | nil => rw [substituteFrom_nil, substituteFrom_nil]
  | cons c r =>
    rcases ho : occurrence? name max b (c :: r) with _ | ⟨s, rest⟩ <;>
      have ho' := (occurrence?_congr h).symm.trans ho
    · rw [substituteFrom_copy hn ho, substituteFrom_copy hn ho']
    · rw [substituteFrom_of_use ho, substituteFrom_of_use ho']

/-- Where a value was stopped no use can start, and a bracket does not join with a name. -/
theorem substituteFrom_use (hn : isIdentifier name = true)
    (h : occurrence? name max b cs = some (s, rest)) :
    substituteFrom name max f b cs = f (s.map (substituteFrom name max f none)) ++
      substituteFrom name max f none rest := by
  rw [substituteFrom_of_use h]
  congr 1
  cases (occurrence?_isUse h).2 with
  | @load is g _ hi hne =>
    obtain ⟨k, hk, hl⟩ := hi.getLast? hne
    rw [← List.append_assoc, consumed_append]
    refine substituteFrom_congr hn ?_
    rw [List.getLast?_append, hl]
    exact joinsName_of_stop (by simp [isStop, hk])
  | store _ _ _ _ _ hr =>
    rcases hr with rfl | ⟨-, hr⟩
    · rw [substituteFrom_nil, substituteFrom_nil]
    · cases rest with
      | nil => cases hr
      | cons k r =>
        have hk : isIdentStart k = false := by
          cases hi : isIdentStart k with
          | false => rfl
          | true =>
            have hm := not_mark_of_ident (isIdent_of_start hi)
            have hs : isStop k = true := by simpa using hr
            simp [isMark, hs] at hm
        rw [substituteFrom_copy hn (occurrence?_of_not_start hn hk),
          substituteFrom_copy hn (occurrence?_of_not_start hn hk)]

/-- Induction along a text, with the text that is made of it. -/
theorem substituteFrom_induct (hn : isIdentifier name = true)
    {P : Option Char → List Char → List Char → Prop} (nil : ∀ b, P b [] [])
    (copy : ∀ b c r, occurrence? name max b (c :: r) = none →
      P (some c) r (substituteFrom name max f (some c) r) →
      P b (c :: r) (c :: substituteFrom name max f (some c) r))
    (use : ∀ b cs s rest, occurrence? name max b cs = some (s, rest) →
      (∀ i ∈ s.indices, P none i (substituteFrom name max f none i)) →
      (∀ a ∈ s.assign, P none a.value (substituteFrom name max f none a.value)) →
      P none rest (substituteFrom name max f none rest) →
      P b cs (f (s.map (substituteFrom name max f none)) ++ substituteFrom name max f none rest))
    (b : Option Char) (cs : List Char) : P b cs (substituteFrom name max f b cs) := by
  induction hl : cs.length using Nat.strongRecOn generalizing b cs with
  | _ l ih =>
    cases cs with
    | nil =>
      rw [substituteFrom_nil]
      exact nil b
    | cons c r =>
      rcases ho : occurrence? name max b (c :: r) with _ | ⟨s, rest⟩
      · rw [substituteFrom_copy hn ho]
        exact copy b c r ho (ih r.length (by simp [← hl]) _ _ rfl)
      · obtain ⟨hrest, hi, ha⟩ := occurrence?_shorter ho
        rw [substituteFrom_use hn ho]
        exact use b _ s rest ho (fun i hm => ih _ (hl ▸ hi i hm) _ _ rfl)
          (fun a hm => ih _ (hl ▸ ha a hm) _ _ rfl) (ih _ (hl ▸ hrest) _ _ rfl)

end Scanning

section Levels

variable {name : List Char} {max : Nat} {f : Subscript → List Char} {b : Option Char} {stop : Bool}
  {l : Nat} {x g cs rest : List Char} {is : List (List Char)} {s : Subscript}

theorem level?_plain (h : x.any (fun c => isOpen c || isStop c) = false) :
    level? stop l x = some l := by
  induction x with
  | nil => rfl
  | cons c x ih =>
    simp only [List.any_cons, isStop, Bool.or_eq_false_iff] at h
    have hc : levelStep? stop l c = some l := by simp [levelStep?, h]
    rw [level?_cons, hc]
    exact ih h.2

theorem level?_of_not_mark (h : ∀ c ∈ x, isMark c = false) : level? stop l x = some l := by
  refine level?_plain (List.any_eq_false.2 fun c hc => ?_)
  have hm := h c hc
  simp only [isMark, Bool.or_eq_false_iff] at hm
  simp [hm]

theorem level?_blank (h : Blank x) : level? stop l x = some l :=
  level?_of_not_mark fun c hc => not_mark_of_blank (h c hc)

theorem level?_name (hn : isIdentifier name = true) : level? stop l name = some l :=
  level?_of_not_mark fun _ hc => not_mark_of_ident (ident_of_mem hn hc)

theorem Sign.level {op : Option Char} {sign : List Char} (h : Sign op sign) :
    level? stop l sign = some l := by
  refine level?_plain ?_
  cases h with
  | plain => decide
  | @joined c hc =>
    simp only [isOperator, Bool.or_eq_true, beq_iff_eq] at hc
    rcases hc with ((rfl | rfl) | rfl) | rfl <;> decide

theorem level?_open_append {c : Char} (hc : isOpen c = true) :
    level? stop l (c :: x) = level? stop (l + 1) x := by
  simp [level?_cons, levelStep?, hc]

theorem level?_close_append {k : Char} (hk : isClose k = true) :
    level? stop (l + 1) (k :: x) = level? stop l x := by
  simp [level?_cons, levelStep?, hk, not_open_of_close hk]

theorem Indices.level (h : Indices is g) : level? stop l g = some l := by
  induction h with
  | nil => rfl
  | cons hb hi hk _ ih =>
    rw [level?_append, level?_blank hb, Option.bind_some, level?_open_append rfl, level?_append,
      hi.level (by simp), Option.bind_some, level?_close_append hk]
    exact ih

theorem Indices.balanced (h : Indices is g) : ∀ i ∈ is, Balanced i := by
  induction h with
  | nil => simp
  | cons _ hi _ _ ih => exact List.forall_mem_cons.2 ⟨hi, ih⟩

theorem level?_trim {m : Nat} (h : level? stop l x = some m) : level? stop l (trim x) = some m := by
  obtain ⟨a, b, ha, hb, hx, -⟩ := exists_trim x
  rw [hx, level?_append, level?_append, level?_blank ha, Option.bind_some] at h
  obtain ⟨m', hm, h⟩ := Option.bind_eq_some_iff.1 h
  rw [level?_blank hb] at h
  cases h
  exact hm

/-- A use whose indices and value have their brackets in order. -/
structure Subscript.WellFormed (s : Subscript) : Prop where
  indices : ∀ i ∈ s.indices, Balanced i
  value : ∀ a ∈ s.assign, IsValue a.value
  op : ∀ a ∈ s.assign, ∀ c ∈ a.op, isOperator c = true

theorem Subscript.WellFormed.map {g : List Char → List Char} (h : s.WellFormed)
    (hi : ∀ i ∈ s.indices, Balanced (g i)) (ha : ∀ a ∈ s.assign, IsValue (g a.value)) :
    (s.map g).WellFormed := by
  obtain ⟨hi', ha'⟩ := s.forall_map hi ha
  refine ⟨hi', ha', fun a' hm => ?_⟩
  obtain ⟨a, has, rfl⟩ := Option.map_eq_some_iff.1 hm
  exact h.op a has

/-- In a text that goes down to level 0 the indices of a use are balanced and its value ends before
the level does. -/
theorem IsUse.level (hn : isIdentifier name = true) (h : IsUse name s cs rest)
    (hl : level? stop l cs = some 0) : s.WellFormed ∧ level? stop l rest = some 0 := by
  cases h with
  | load hi _ =>
    rw [level?_append, level?_name hn, Option.bind_some, level?_append, hi.level,
      Option.bind_some] at hl
    exact ⟨⟨hi.balanced, by simp, by simp⟩, hl⟩
  | @store is g blanks sign v _ op m hi _ hbl hs hv hr =>
    have hv' : level? stop l v = some (m + l) := by
      simpa using level?_add (n := l) hv fun _ => .inl rfl
    rw [level?_append, level?_name hn, Option.bind_some, level?_append, hi.level, Option.bind_some,
      level?_append, level?_blank hbl, Option.bind_some, level?_append, hs.level, Option.bind_some,
      level?_append, hv', Option.bind_some] at hl
    have hm : m = 0 := by
      rcases hr with rfl | ⟨hm, -⟩
      · have : m + l = 0 := by simpa [level?] using hl
        omega
      · exact hm
    subst hm
    rw [Nat.zero_add] at hl
    refine ⟨⟨hi.balanced, fun a ha => ?_, fun a ha c hc => ?_⟩, hl⟩
    · cases ha
      exact level?_trim hv
    · cases ha
      cases hs <;> cases hc
      assumption

/-- What is made of a use has its brackets in order if its parts have. -/
def KeepsLevel (f : Subscript → List Char) : Prop :=
  ∀ s, s.WellFormed → ∀ stop l, level? stop l (f s) = some l

theorem level?_substituteFrom (hn : isIdentifier name = true) (hf : KeepsLevel f)
    (h : level? stop l x = some 0) : level? stop l (substituteFrom name max f b x) = some 0 := by
  refine substituteFrom_induct (f := f) hn
    (P := fun _ x y => ∀ stop l, level? stop l x = some 0 → level? stop l y = some 0)
    (fun _ _ _ h => h) (fun b c r _ ih stop l h => ?_) (fun b cs s rest ho hi ha hr stop l h => ?_)
    b x stop l h
  · rw [level?_cons] at h ⊢
    obtain ⟨l', hc, h⟩ := Option.bind_eq_some_iff.1 h
    rw [hc]
    exact ih stop l' h
  · obtain ⟨hw, hrl⟩ := (occurrence?_isUse ho).2.level hn h
    have hw' := hw.map (fun i hm => hi i hm false 0 (hw.indices i hm))
      fun a hm => ha a hm true 0 (hw.value a hm)
    rw [level?_append, hf _ hw', Option.bind_some]
    exact hr stop l hrl

end Levels

section Seams

variable {name : List Char} {max : Nat} {f : Subscript → List Char} {b : Option Char} {k : Char}
  {l : Nat} {w x y r : List Char}

theorem trimStart_append_of_nil (h : trimStart x = []) : trimStart (x ++ y) = trimStart y := by
  obtain ⟨a, ha, hx, -⟩ := exists_trimStart x
  rw [h, List.append_nil] at hx
  rw [hx]
  exact trimStart_append ha

theorem trimStart_append_of_cons {c : Char} (h : trimStart x = c :: r) :
    trimStart (x ++ y) = c :: (r ++ y) := by
  obtain ⟨a, ha, hx, hh⟩ := exists_trimStart x
  rw [h] at hx hh
  rw [hx, List.append_assoc, trimStart_append ha, List.cons_append]
  exact trimStart_of_head hh

/-- A text that cannot go on with a name, its indices or an assignment. -/
structure Seam (y : List Char) : Prop where
  ident : y.head?.any isIdent = false
  index : (trimStart y).head? ≠ some '['
  equal : y.head? ≠ some '='
  sign : assignSign? y = none

theorem seam_stop (hk : isStop k = true) : Seam (k :: y) := by
  have hm : isMark k = true := by simp [isMark, hk]
  have hb : isBlank k = false := by
    cases hb : isBlank k with
    | false => rfl
    | true => simp [not_mark_of_blank hb] at hm
  have ht : trimStart (k :: y) = k :: y := trimStart_of_head (by simpa using hb)
  have hi : isIdent k = false := by
    cases hi : isIdent k with
    | false => rfl
    | true => simp [not_mark_of_ident hi] at hm
  have hne : k ≠ '=' ∧ k ≠ '[' ∧ isOperator k = false := by
    simp only [isStop, isClose, Bool.or_eq_true, beq_iff_eq] at hk
    rcases hk with ((rfl | rfl) | rfl) | rfl <;> decide
  refine ⟨by simpa using hi, by simp [ht, hne], by simpa using hne.1, ?_⟩
  unfold assignSign?
  rw [ht]
  split <;> simp_all

theorem seam_blank (hw : Blank w) : Seam w := by
  have ht : trimStart w = [] := by
    have := trimStart_append (x := []) hw
    rwa [List.append_nil] at this
  cases w with
  | nil => exact ⟨rfl, by simp [ht], by simp, rfl⟩
  | cons c w =>
    have hc := hw c List.mem_cons_self
    refine ⟨?_, by simp [ht], ?_, by simp [assignSign?, ht]⟩
    · cases hi : isIdent c with
      | false => simpa using hi
      | true => simp [not_blank_of_ident hi] at hc
    · have := (mark_eq_false (not_mark_of_blank hc)).2.2.2.2.1
      simpa using this

/-- Blanks keep what follows them apart from a name. -/
theorem head?_ident_blank {e : Char} (hw : Blank w) (he : isIdent e = false) :
    (w ++ e :: r).head?.any isIdent = false := by
  cases w with
  | nil => simpa using he
  | cons c w => simpa using (seam_blank hw).ident

theorem after?_append (hn : ∀ c ∈ name, isIdent c = true) (hy : Seam y) :
    after? name (x ++ y) = (after? name x).map (· ++ y) := by
  induction name generalizing x with
  | nil => rfl
  | cons n ns ih =>
    have hns : ∀ c ∈ ns, isIdent c = true := fun c hc => hn c (List.mem_cons_of_mem _ hc)
    cases x with
    | nil =>
      cases y with
      | nil => rfl
      | cons e y =>
        have hne : n ≠ e := by
          rintro rfl
          simpa [hn n List.mem_cons_self] using hy.ident
        simp [after?, hne]
    | cons c x =>
      rw [List.cons_append, after?, after?]
      split
      · exact ih hns
      · rfl

theorem indexGroups_append (max : Nat) (hx : level? false l x = some 0) (hy : Seam y) :
    indexGroups max (x ++ y) = ((indexGroups max x).1, (indexGroups max x).2 ++ y) ∧
      level? false l (indexGroups max x).2 = some 0 := by
  induction max generalizing x with
  | zero => exact ⟨rfl, hx⟩
  | succ max ih =>
    obtain ⟨a, ha, hax, -⟩ := exists_trimStart x
    rw [indexGroups, indexGroups]
    rcases ht : trimStart x with _ | ⟨c, r⟩
    · rw [trimStart_append_of_nil ht]
      refine ⟨?_, hx⟩
      split
      · rename_i r hr
        exact absurd (by rw [hr]; rfl) hy.index
      · rfl
    · rw [trimStart_append_of_cons ht]
      by_cases hc : c = '['
      · subst hc
        have hr : level? false (l + 1) r = some 0 := by
          rw [hax, ht, level?_append, level?_blank ha, Option.bind_some,
            level?_open_append rfl] at hx
          exact hx
        obtain ⟨inside, k, rest, hk, rfl, hi, hrest⟩ := exists_splitClose hr (Nat.succ_pos l)
        obtain ⟨hg, hl⟩ := ih (x := rest) (by simpa using hrest)
        simp only [List.append_assoc, List.cons_append, splitClose_of_level hi hk, hg]
        exact ⟨trivial, hl⟩
      · refine ⟨?_, ?_⟩
        · split
          · rename_i hr
            cases hr
            exact absurd rfl hc
          · split
            · rename_i hr
              cases hr
              exact absurd rfl hc
            · rfl
        · split
          · rename_i hr
            cases hr
            exact absurd rfl hc
          · exact hx

theorem assignSign?_single {c : Char} (h : trimStart x = [c]) :
    assignSign? x = if c = '=' then some (none, []) else none := by
  unfold assignSign?
  rw [h]
  split <;> simp_all

theorem assignSign?_cons_cons {c d : Char} (h : trimStart x = c :: d :: r) :
    assignSign? x = if c = '=' then if d = '=' then none else some (none, d :: r)
      else if d = '=' ∧ isOperator c = true then some (some c, r) else none := by
  unfold assignSign?
  rw [h]
  by_cases hc : c = '='
  · by_cases hd : d = '='
    · rw [hc, hd]
      rfl
    · split <;> simp_all
  · split <;> simp_all

theorem assignSign?_append (hy : Seam y) :
    assignSign? (x ++ y) = (assignSign? x).map fun p => (p.1, p.2 ++ y) := by
  rcases ht : trimStart x with _ | ⟨c, _ | ⟨d, r⟩⟩
  · have hs := hy.sign
    unfold assignSign? at hs ⊢
    rw [trimStart_append_of_nil ht, hs, ht]
    rfl
  · have ht' := trimStart_append_of_cons (y := y) ht
    rw [assignSign?_single ht]
    rcases y with _ | ⟨e, y⟩
    · rw [List.append_nil, assignSign?_single ht]
      split <;> rfl
    · have hne : e ≠ '=' := by simpa using hy.equal
      rw [assignSign?_cons_cons ht']
      split <;> simp [hne]
  · have ht' := trimStart_append_of_cons (y := y) ht
    rw [assignSign?_cons_cons ht, assignSign?_cons_cons ht']
    split
    · split <;> rfl
    · split <;> rfl

/-- The text after a sign stands on the same level as the text before it. -/
theorem level?_after_sign {op : Option Char} (hx : level? false l x = some 0)
    (h : assignSign? x = some (op, r)) : level? false l r = some 0 := by
  obtain ⟨blanks, sign, hb, hs, rfl⟩ := assignSign?_eq h
  rwa [level?_append, level?_blank hb, Option.bind_some, level?_append, hs.level,
    Option.bind_some] at hx

theorem assignment?_append_stop (hx : level? false l x = some 0) (hk : isStop k = true) :
    assignment? (x ++ k :: y) = (assignment? x).map fun p => (p.1, p.2 ++ k :: y) := by
  unfold assignment?
  rw [assignSign?_append (seam_stop hk)]
  rcases hs : assignSign? x with _ | ⟨op, r⟩
  · rfl
  have hr := level?_after_sign hx hs
  have hv : splitValue 0 (r ++ k :: y) = ((splitValue 0 r).1, (splitValue 0 r).2 ++ k :: y) := by
    by_cases hn : (splitValue 0 r).2 = []
    · obtain ⟨m, hm, -⟩ := splitValue_level 0 r
      have hr' := splitValue_append 0 r
      rw [hn, List.append_nil] at hr'
      rw [hr'] at hm
      have hml : level? false l r = some (m + l) := by
        simpa using level?_add (n := l) hm fun _ => .inl rfl
      obtain rfl : m = 0 := by
        have : m + l = 0 := Option.some.inj (hml.symm.trans hr)
        omega
      rw [splitValue_of_level hm hk, hn, hr', List.nil_append]
    · exact splitValue_append_of_ne hn
  simp only [Option.map_some, hv]

theorem trim_append_blank (hw : Blank w) : trim (x ++ w) = trim x := by
  obtain ⟨a, b, ha, hb, hx, ht⟩ := exists_trim x
  conv =>
    lhs
    rw [hx, List.append_assoc]
  exact trim_append ha (hb.append hw) ht

theorem splitValue_of_level_end {m : Nat} (h : level? true l x = some m) :
    splitValue l x = (x, []) := by
  induction x generalizing l with
  | nil => rfl
  | cons c x ih =>
    rw [splitValue]
    rcases level?_cons_cases h with ⟨ho, h⟩ | ⟨ho, hc, hl, h⟩ | ⟨ho, hc, hs, h⟩
    · simp [ho, ih h]
    · simp [ho, hc, ih h, Nat.ne_of_gt hl]
    · rw [Bool.true_and] at hs
      simp only [ho, hc, hs, ih h, Bool.false_eq_true, if_false]

/-- Blanks at the end of a text belong to the value that ends there, and are trimmed. -/
theorem assignment?_append_blank (hw : Blank w) : assignment? (x ++ w) =
    (assignment? x).map fun p => (p.1, if p.2 = [] then [] else p.2 ++ w) := by
  unfold assignment?
  rw [assignSign?_append (seam_blank hw)]
  rcases hs : assignSign? x with _ | ⟨op, r⟩
  · rfl
  simp only [Option.map_some]
  split
  · rename_i hn
    obtain ⟨m, hm, -⟩ := splitValue_level 0 r
    have hr' := splitValue_append 0 r
    rw [hn, List.append_nil] at hr'
    rw [hr'] at hm
    have hm' : level? true 0 (r ++ w) = some m := by rw [level?_append, hm]; exact level?_blank hw
    rw [splitValue_of_level_end hm', hr']
    simp only [trim_append_blank hw]
  · rename_i hn
    rw [splitValue_append_of_ne hn]

/-- A use in front of a seam is read as if the text ended there, but for the end of its value. -/
theorem occurrence?_append {g : List Char → List Char} (hn : isIdentifier name = true)
    (hx : level? false l x = some 0) (hy : Seam y)
    (ha : ∀ r, level? false l r = some 0 →
      assignment? (r ++ y) = (assignment? r).map fun p => (p.1, g p.2)) :
    occurrence? name max b (x ++ y) = (occurrence? name max b x).map fun p =>
      (p.1, if p.1.assign.isSome then g p.2 else p.2 ++ y) := by
  have hni : ∀ c ∈ name, isIdent c = true := fun _ => ident_of_mem hn
  unfold occurrence?
  split
  · rfl
  rw [after?_append hni hy]
  rcases hr : after? _ x with _ | r
  · rfl
  have hrl : level? false l r = some 0 := by
    rw [after?_eq_some hr, level?_append, level?_name hn] at hx
    exact hx
  have hh : (r ++ y).head?.any isIdent = r.head?.any isIdent := by
    cases r with
    | nil => exact hy.ident
    | cons c r => rfl
  obtain ⟨hg, hl⟩ := indexGroups_append max hrl hy
  simp only [Option.map_some, hh, hg]
  split
  · rfl
  rcases hi : indexGroups max r with ⟨_ | ⟨i, is⟩, rest⟩
  · rfl
  rw [hi] at hl
  simp only [ha rest hl]
  rcases assignment? rest with _ | ⟨a, rest'⟩ <;> rfl

theorem occurrence?_append_stop (hn : isIdentifier name = true) (hx : level? false l x = some 0)
    (hk : isStop k = true) : occurrence? name max b (x ++ k :: y) =
      (occurrence? name max b x).map fun p => (p.1, p.2 ++ k :: y) := by
  rw [occurrence?_append (g := (· ++ k :: y)) hn hx (seam_stop hk)
    fun r hr => assignment?_append_stop hr hk]
  simp only [ite_self]

theorem occurrence?_append_blank (hn : isIdentifier name = true) (hx : level? false l x = some 0)
    (hw : Blank w) : occurrence? name max b (x ++ w) = (occurrence? name max b x).map fun p =>
      (p.1, if p.1.assign.isSome then if p.2 = [] then [] else p.2 ++ w else p.2 ++ w) :=
  occurrence?_append (g := fun r => if r = [] then [] else r ++ w) hn hx (seam_blank hw)
    fun _ _ => assignment?_append_blank hw

end Seams

section Ends

variable {name : List Char} {max : Nat} {f : Subscript → List Char} {b : Option Char} {c k : Char}
  {l : Nat} {u w x y r : List Char}

theorem not_start_of_mark (h : isMark c = true) : isIdentStart c = false := by
  cases hc : isIdentStart c with
  | false => rfl
  | true => simp [not_mark_of_ident (isIdent_of_start hc)] at h

theorem not_start_of_blank (h : isBlank c = true) : isIdentStart c = false := by
  cases hc : isIdentStart c with
  | false => rfl
  | true => simp [not_blank_of_ident (isIdent_of_start hc)] at h

theorem not_start_of_stop (h : isStop k = true) : isIdentStart k = false :=
  not_start_of_mark (by simp [isMark, h])

/-- A character with which no name starts is copied. -/
theorem substituteFrom_cons (hn : isIdentifier name = true) (hc : isIdentStart c = false) :
    substituteFrom name max f b (c :: r) = c :: substituteFrom name max f (some c) r :=
  substituteFrom_copy hn (occurrence?_of_not_start hn hc)

theorem substituteFrom_stop_cons (hn : isIdentifier name = true) (hk : isStop k = true) :
    substituteFrom name max f b (k :: y) = k :: substituteFrom name max f none y := by
  rw [substituteFrom_cons hn (not_start_of_stop hk)]
  exact congrArg _ (substituteFrom_congr hn (joinsName_of_stop hk))

/-- What stands before a character that stops a value is replaced as if it stood alone. -/
theorem substituteFrom_stop (hn : isIdentifier name = true) (hx : level? false l x = some 0)
    (hk : isStop k = true) : substituteFrom name max f b (x ++ k :: y) =
      substituteFrom name max f b x ++ k :: substituteFrom name max f none y := by
  refine substituteFrom_induct (f := f) hn
    (P := fun b x x' => ∀ l, level? false l x = some 0 →
      substituteFrom name max f b (x ++ k :: y) = x' ++ k :: substituteFrom name max f none y)
    (fun b l _ => ?_) (fun b c r ho ih l hl => ?_) (fun b cs s rest ho _ _ ih l hl => ?_) b x l hx
  · exact substituteFrom_stop_cons hn hk
  · have ho' : occurrence? name max b (c :: (r ++ k :: y)) = none := by
      rw [← List.cons_append, occurrence?_append_stop hn hl hk, ho]
      rfl
    rw [level?_cons] at hl
    obtain ⟨l', -, hr⟩ := Option.bind_eq_some_iff.1 hl
    rw [List.cons_append, substituteFrom_copy hn ho', ih l' hr]
    rfl
  · have ho' : occurrence? name max b (cs ++ k :: y) = some (s, rest ++ k :: y) := by
      rw [occurrence?_append_stop hn hl hk, ho]
      rfl
    have hr := ((occurrence?_isUse ho).2.level hn hl).2
    rw [substituteFrom_use hn ho', ih l hr, List.append_assoc]

theorem substituteFrom_blank (hn : isIdentifier name = true) (hw : Blank w) :
    substituteFrom name max f b w = w := by
  induction w generalizing b with
  | nil => exact substituteFrom_nil
  | cons c w ih =>
    obtain ⟨hc, hw⟩ := blank_cons.1 hw
    rw [substituteFrom_cons hn (not_start_of_blank hc), ih hw]

/-- Blanks at the end of a text stay there, unless a value ends with them. -/
theorem substituteFrom_append_blank (hn : isIdentifier name = true)
    (hx : level? false l x = some 0) (hw : Blank w) :
    ∃ w', Blank w' ∧
      substituteFrom name max f b (x ++ w) = substituteFrom name max f b x ++ w' := by
  refine substituteFrom_induct (f := f) hn
    (P := fun b x x' => ∀ l, level? false l x = some 0 →
      ∃ w', Blank w' ∧ substituteFrom name max f b (x ++ w) = x' ++ w')
    (fun b l _ => ?_) (fun b c r ho ih l hl => ?_) (fun b cs s rest ho _ _ ih l hl => ?_) b x l hx
  · exact ⟨w, hw, substituteFrom_blank hn hw⟩
  · have ho' : occurrence? name max b (c :: (r ++ w)) = none := by
      rw [← List.cons_append, occurrence?_append_blank hn hl hw, ho]
      rfl
    rw [level?_cons] at hl
    obtain ⟨l', -, hr⟩ := Option.bind_eq_some_iff.1 hl
    obtain ⟨w', hw', h⟩ := ih l' hr
    exact ⟨w', hw', by rw [List.cons_append, substituteFrom_copy hn ho', h]; rfl⟩
  · have ho' : occurrence? name max b (cs ++ w) = _ := occurrence?_append_blank hn hl hw
    simp only [ho, Option.map_some] at ho'
    have hr := ((occurrence?_isUse ho).2.level hn hl).2
    obtain ⟨w', hw', h⟩ := ih l hr
    rw [substituteFrom_use hn ho']
    split
    · split
      · rename_i hrest
        exact ⟨[], blank_nil, by rw [hrest, List.append_nil]⟩
      · exact ⟨w', hw', by rw [h, List.append_assoc]⟩
    · exact ⟨w', hw', by rw [h, List.append_assoc]⟩

end Ends

section Words

variable {name : List Char} {max : Nat} {f : Subscript → List Char} {b : Option Char} {e : Char}
  {u w r y : List Char}

/-- A name with an index and a word with something else after it are the same name. -/
theorem word_unique (hn : ∀ c ∈ name, isIdent c = true) (hu : ∀ c ∈ u, isIdent c = true)
    (hw : Blank w) (he : isIdent e = false) (h : name ++ (w ++ '[' :: r) = u ++ e :: y) :
    name = u ∧ (isBlank e = true ∨ e = '[') := by
  have hhead : ∃ d t, w ++ '[' :: r = d :: t ∧ isIdent d = false ∧
      (isBlank d = true ∨ d = '[') := by
    rcases w with _ | ⟨d, w⟩
    · exact ⟨'[', r, rfl, rfl, .inr rfl⟩
    · have hd := hw d List.mem_cons_self
      refine ⟨d, w ++ '[' :: r, rfl, ?_, .inl hd⟩
      cases hi : isIdent d with
      | false => rfl
      | true => simp [not_blank_of_ident hi] at hd
  obtain ⟨d, t, ht, hd, hcases⟩ := hhead
  rw [ht] at h
  have hdrop := congrArg (List.dropWhile isIdent) h
  rw [List.dropWhile_append_of_pos hn, List.dropWhile_append_of_pos hu,
    List.dropWhile_cons_of_neg (by simp [hd]), List.dropWhile_cons_of_neg (by simp [he])] at hdrop
  cases hdrop
  exact ⟨List.append_cancel_right h, hcases⟩

theorem IsUse.front {s : Subscript} {cs rest : List Char} (h : IsUse name s cs rest) :
    ∃ w r, Blank w ∧ cs = name ++ (w ++ '[' :: r) := by
  have hgroups : ∀ {is g}, Indices is g → is ≠ [] →
      ∀ z, ∃ w r, Blank w ∧ g ++ z = w ++ '[' :: r := by
    intro is g hi hne z
    cases hi with
    | nil => exact absurd rfl hne
    | @cons blanks i k is g hb => exact ⟨blanks, i ++ k :: (g ++ z), hb, by simp⟩
  cases h with
  | load hi hne =>
    obtain ⟨w, r, hw, h⟩ := hgroups hi hne rest
    exact ⟨w, r, hw, congrArg (name ++ ·) h⟩
  | store hi hne =>
    obtain ⟨w, r, hw, h⟩ := hgroups hi hne _
    exact ⟨w, r, hw, congrArg (name ++ ·) h⟩

theorem occurrence?_word (hn : isIdentifier name = true) (hu : ∀ c ∈ u, isIdent c = true)
    (he : isIdent e = false) (hx : u ≠ name ∨ isBlank e = false ∧ e ≠ '[') :
    occurrence? name max b (u ++ e :: y) = none := by
  rcases ho : occurrence? name max b (u ++ e :: y) with _ | ⟨s, rest⟩
  · rfl
  obtain ⟨w, r, hw, hs⟩ := (occurrence?_isUse ho).2.front
  obtain ⟨rfl, hor⟩ := word_unique (fun _ => ident_of_mem hn) hu hw he hs.symm
  rcases hx with hx | ⟨hb, hx⟩
  · exact absurd rfl hx
  · rcases hor with hor | hor
    · simp [hb] at hor
    · exact absurd hor hx

theorem substituteFrom_joined (hn : isIdentifier name = true) (hu : ∀ c ∈ u, isIdent c = true)
    (hb : joinsName b = true) : substituteFrom name max f b (u ++ e :: y) =
      u ++ substituteFrom name max f (u.getLast?.or b) (e :: y) := by
  induction u generalizing b with
  | nil => rfl
  | cons c u ih =>
    have hu' : ∀ c ∈ u, isIdent c = true := fun d hd => hu d (List.mem_cons_of_mem _ hd)
    rw [List.cons_append, substituteFrom_copy hn (occurrence?_of_joins hb),
      ih hu' (joinsName_of_ident (hu c List.mem_cons_self)), List.getLast?_cons]
    cases u.getLast? <;> rfl

/-- A word is copied unless it is the name with an index after it. -/
theorem substituteFrom_word (hn : isIdentifier name = true) (hu : ∀ c ∈ u, isIdent c = true)
    (he : joinsName (some e) = false) (hx : u ≠ name ∨ isBlank e = false ∧ e ≠ '[') :
    substituteFrom name max f b (u ++ e :: y) = u ++ e :: substituteFrom name max f none y := by
  have hei : isIdent e = false := by
    simp only [joinsName, Option.any_some, Bool.or_eq_false_iff] at he
    exact he.1
  have hes : isIdentStart e = false := by
    cases hs : isIdentStart e with
    | false => rfl
    | true => simp [isIdent_of_start hs] at hei
  have hend : ∀ b, substituteFrom name max f b (e :: y) =
      e :: substituteFrom name max f none y := by
    intro b
    rw [substituteFrom_cons hn hes]
    exact congrArg _ (substituteFrom_congr hn he)
  have hword : occurrence? name max b (u ++ e :: y) = none := occurrence?_word hn hu hei hx
  cases u with
  | nil => exact hend b
  | cons c u =>
    rw [List.cons_append] at hword ⊢
    rw [substituteFrom_copy hn hword, substituteFrom_joined hn
      (fun d hd => hu d (List.mem_cons_of_mem _ hd)) (joinsName_of_ident (hu c List.mem_cons_self)),
      hend]
    rfl

end Words

section Reading

variable {name : List Char} {max : Nat} {b : Option Char} {k : Char} {op : Option Char}
  {i sign w y z v rest : List Char} {is : List (List Char)}

theorem after?_self (name y : List Char) : after? name (name ++ y) = some y := by
  induction name with
  | nil => rfl
  | cons n ns ih => simpa [after?] using ih

theorem indexGroups_cons (hw : Blank w) (hi : Balanced i) (hk : isClose k = true) :
    indexGroups (max + 1) (w ++ '[' :: (i ++ k :: z)) =
      (i :: (indexGroups max z).1, (indexGroups max z).2) := by
  have ht : trimStart (w ++ '[' :: (i ++ k :: z)) = '[' :: (i ++ k :: z) := by
    rw [trimStart_append hw]
    exact trimStart_of_head rfl
  simp only [indexGroups, ht, splitClose_of_level hi hk]

theorem assignSign?_of_sign (hw : Blank w) (hs : Sign op sign) (hy : y.head? ≠ some '=') :
    assignSign? (w ++ (sign ++ y)) = some (op, y) := by
  have ht : trimStart (w ++ (sign ++ y)) = sign ++ y := by
    rw [trimStart_append hw]
    refine trimStart_of_head ?_
    cases hs with
    | plain => rfl
    | @joined c hc =>
      cases hb : isBlank c with
      | false => simpa using hb
      | true => simp [mark_eq_false (not_mark_of_blank hb)] at hc
  cases hs with
  | plain =>
    cases y with
    | nil => exact assignSign?_single ht
    | cons c y =>
      have hc : c ≠ '=' := by simpa using hy
      rw [assignSign?_cons_cons ht]
      simp [hc]
  | @joined c hc =>
    have hne : c ≠ '=' := by
      rintro rfl
      cases hc
    rw [assignSign?_cons_cons ht]
    simp [hne, hc]

/-- An assignment is read up to the character that stops its value. -/
theorem assignment?_of_stop (hw : Blank w) (hs : Sign op sign) (hv : IsValue v)
    (he : v.head? ≠ some '=') (hk : isStop k = true) :
    assignment? (w ++ (sign ++ (v ++ k :: z))) = some (⟨op, trim v⟩, k :: z) := by
  have hne : (v ++ k :: z).head? ≠ some '=' := by
    cases v with
    | nil =>
      have := (seam_stop (y := z) hk).equal
      simpa using this
    | cons => simpa using he
  simp only [assignment?, assignSign?_of_sign hw hs hne, Option.map_some, splitValue_of_level hv hk]

/-- An assignment of blanks up to the end of a text. -/
theorem assignment?_of_blank (hw : Blank w) (hs : Sign op sign) (hv : Blank v) :
    assignment? (w ++ (sign ++ v)) = some (⟨op, []⟩, []) := by
  have ht : trim v = [] := trim_append_blank (x := []) hv
  simp only [assignment?, assignSign?_of_sign hw hs (seam_blank hv).equal, Option.map_some,
    splitValue_of_level_end (level?_blank (l := 0) hv), ht]

theorem occurrence?_of_groups (hne : name ≠ []) (hb : joinsName b = false)
    (hy : y.head?.any isIdent = false) (hg : indexGroups max y = (i :: is, z)) :
    occurrence? name max b (name ++ y) = some ((assignment? z).elim (⟨i :: is, none⟩, z)
      fun p => (⟨i :: is, some p.1⟩, p.2)) := by
  obtain ⟨n, ns, rfl⟩ := List.exists_cons_of_ne_nil hne
  unfold occurrence?
  simp only [after?_self, hb, hy, hg]
  cases assignment? z <;> rfl

theorem occurrence?_name (hn : isIdentifier name = true) (hb : joinsName b = false)
    (hy : y.head?.any isIdent = false) (hg : indexGroups max y = (i :: is, z)) :
    occurrence? name max b (name ++ y) = some ((assignment? z).elim (⟨i :: is, none⟩, z)
      fun p => (⟨i :: is, some p.1⟩, p.2)) :=
  occurrence?_of_groups (by rintro rfl; cases hn) hb hy hg

end Reading

end ComputeKernel.Body
