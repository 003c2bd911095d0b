import ComputeKernel.Proofs.Phrasing

/-!
# Reading after a pass

A pass for one name leaves the uses of the other names where they are: where no use of its own name
starts, another name is read from the result with the same indices and the same sign as from the
text, each with the pass carried out in it (`target?_substituteFrom`). This needs no balance. A
bracket that nothing closes stays open, because what is made of a use never closes more brackets
than it opens (`KeepsOpen`).
-/

namespace ComputeKernel.Body

open Text

section Open

variable {name : List Char} {max : Nat} {f : Subscript → List Char} {b : Option Char} {l : Nat}
  {x y cs rest : List Char} {s : Subscript}

/-- A text that closes no more brackets than are open, when `l` are open before it. -/
def StaysOpen (l : Nat) (x : List Char) : Prop := (level? false l x).isSome = true

theorem splitClose_eq_none (h : StaysOpen l x) : splitClose l x = none := by
  cases hs : splitClose l x with
  | none => rfl
  | some p =>
    obtain ⟨hl, k, hk, rfl⟩ := splitClose_level hs
    rw [StaysOpen, level?_stop hl (Nat.le_refl l) (.inl hk)] at h
    cases h

theorem staysOpen_of_splitClose (h : splitClose l x = none) : StaysOpen l x := by
  induction x generalizing l with
  | nil => rfl
  | cons c x ih =>
    unfold StaysOpen
    rw [splitClose] at h
    rw [level?_cons, levelStep?]
    split at h
    · rename_i ho
      rw [if_pos ho]
      exact ih (Option.map_eq_none_iff.1 h)
    · rename_i ho
      rw [if_neg ho]
      split at h
      · rename_i hc
        rw [if_pos hc]
        split at h
        · cases h
        · rename_i hl
          rw [if_neg hl]
          exact ih (Option.map_eq_none_iff.1 h)
      · rename_i hc
        rw [if_neg hc]
        exact ih (Option.map_eq_none_iff.1 h)

theorem StaysOpen.add (h : StaysOpen 0 x) : StaysOpen l x := by
  obtain ⟨m, hm⟩ := Option.isSome_iff_exists.1 h
  have hl : level? false (0 + l) x = some (m + l) := level?_add hm (by simp)
  rw [Nat.zero_add] at hl
  rw [StaysOpen, hl]
  rfl

/-- What is made of a use closes no bracket that it does not open, whatever its value leaves open.
-/
def KeepsOpen (f : Subscript → List Char) : Prop :=
  ∀ s, (∀ i ∈ s.indices, Balanced i) → (∀ a ∈ s.assign, StaysOpen 0 a.value) →
    (∀ a ∈ s.assign, ∀ c ∈ a.op, isOperator c = true) → StaysOpen 0 (f s)

/-- What a use consists of, in a text that need not be balanced. Its value may only be left open if
the text ends with it. -/
structure Subscript.Sits (s : Subscript) (rest : List Char) : Prop where
  indices : ∀ i ∈ s.indices, Balanced i
  op : ∀ a ∈ s.assign, ∀ c ∈ a.op, isOperator c = true
  value : ∀ a ∈ s.assign, IsValue a.value ∧ rest.head?.any isStop = true ∨
    rest = [] ∧ StaysOpen 0 a.value

theorem IsUse.sits (h : IsUse name s cs rest) : s.Sits rest := by
  cases h with
  | load hi _ => exact ⟨hi.balanced, by simp, by simp⟩
  | @store is g blanks sign v _ op m hi _ _ hs hv hr =>
    refine ⟨hi.balanced, fun a ha c hc => ?_, fun a ha => ?_⟩
    · cases ha
      cases hs <;> cases hc
      assumption
    · cases ha
      rcases hr with rfl | ⟨rfl, hr⟩
      · have hopen : level? false 0 v = some m := level?_add (n := 0) hv (by simp)
        exact .inr ⟨rfl, by rw [StaysOpen, level?_trim hopen]; rfl⟩
      · exact .inl ⟨level?_trim hv, hr⟩

theorem level?_rest (hn : isIdentifier name = true) (h : IsUse name s cs rest)
    (hv : ∀ a ∈ s.assign, rest ≠ [] ∧ IsValue a.value) :
    level? false l cs = level? false l rest := by
  cases h with
  | load hi _ =>
    rw [level?_append, level?_name hn, Option.bind_some, level?_append, hi.level, Option.bind_some]
  | @store is g blanks sign v _ op m hi _ hb hs hv' hr =>
    obtain rfl : m = 0 := (hr.resolve_left (hv _ rfl).1).1
    rw [level?_append, level?_name hn, Option.bind_some, level?_append, hi.level, Option.bind_some,
      level?_append, level?_blank hb, Option.bind_some, level?_append, hs.level, Option.bind_some,
      level?_append, IsValue.level hv', Option.bind_some]

/-- A pass closes no bracket that was open. -/
theorem StaysOpen.substituteFrom (hn : isIdentifier name = true) (hl : KeepsLevel f)
    (ho : KeepsOpen f) (h : StaysOpen l x) : StaysOpen l (substituteFrom name max f b x) := by
  refine substituteFrom_induct (f := f) hn (P := fun _ x y => ∀ l, StaysOpen l x → StaysOpen l y)
    (fun _ _ h => h) (fun b c r _ ih l h => ?_) (fun b cs s rest hu hi ha hr l h => ?_) b x l h
  · unfold StaysOpen at h ⊢
    rw [level?_cons] at h ⊢
    cases hc : levelStep? false l c with
    | none => simp [hc] at h
    | some l' =>
      rw [hc] at h
      exact ih l' h
  · have huse := (occurrence?_isUse hu).2
    have hs := huse.sits
    have hi' : ∀ i ∈ (s.map (Body.substituteFrom name max f none)).indices, Balanced i :=
      List.forall_mem_map.2 fun i hm => level?_substituteFrom hn hl (hs.indices i hm)
    have hop : ∀ a ∈ (s.map (Body.substituteFrom name max f none)).assign, ∀ c ∈ a.op,
        isOperator c = true := by
      intro a' hm
      obtain ⟨a, has, rfl⟩ := Option.map_eq_some_iff.1 hm
      exact hs.op a has
    by_cases hend : ∃ a ∈ s.assign, rest = []
    · obtain ⟨a, has, rfl⟩ := hend
      rw [substituteFrom_nil, List.append_nil]
      refine (ho _ hi' (fun a' hm => ?_) hop).add
      obtain ⟨a, has, rfl⟩ := Option.map_eq_some_iff.1 hm
      rcases hs.value a has with ⟨-, hstop⟩ | ⟨-, hopen⟩
      · cases hstop
      · exact ha a has 0 hopen
    · have hval : ∀ a ∈ s.assign, rest ≠ [] ∧ IsValue a.value := fun a has =>
        ⟨fun hr => hend ⟨a, has, hr⟩,
          ((hs.value a has).resolve_right fun hr => hend ⟨a, has, hr.1⟩).1⟩
      have hw : (s.map (Body.substituteFrom name max f none)).WellFormed := by
        refine ⟨hi', fun a' hm => ?_, hop⟩
        obtain ⟨a, has, rfl⟩ := Option.map_eq_some_iff.1 hm
        exact level?_substituteFrom hn hl (hval a has).2
      rw [StaysOpen, level?_rest hn huse hval] at h
      rw [StaysOpen, level?_append, hl _ hw, Option.bind_some]
      exact hr l h

end Open

section Fronts

variable {name n : List Char} {max m : Nat} {f : Subscript → List Char} {b : Option Char}
  {c : Char} {ns x y r : List Char}

/-- A pass that the lemmas below are about: its phrases start with identifiers and keep brackets as
they are. -/
structure Quiet (name : List Char) (f : Subscript → List Char) : Prop where
  name : isIdentifier name = true
  start : StartsIdent f
  level : KeepsLevel f
  unclosed : KeepsOpen f

theorem splitClose_substituteFrom (hf : Quiet name f) :
    splitClose 0 (substituteFrom name max f none x) = (splitClose 0 x).map fun p =>
      (substituteFrom name max f none p.1, substituteFrom name max f none p.2) := by
  cases hs : splitClose 0 x with
  | none =>
    exact splitClose_eq_none
      ((staysOpen_of_splitClose hs).substituteFrom hf.name hf.level hf.unclosed)
  | some p =>
    obtain ⟨hl, k, hk, rfl⟩ := splitClose_level hs
    rw [substituteFrom_stop hf.name hl (by simp [isStop, hk])]
    exact splitClose_of_level (level?_substituteFrom hf.name hf.level hl) hk

theorem trimStart_substituteFrom (hf : Quiet name f) :
    trimStart (substituteFrom name max f none x) =
      substituteFrom name max f none (trimStart x) := by
  obtain ⟨w, hw, hx, hh⟩ := exists_trimStart x
  conv =>
    lhs
    rw [hx, substituteFrom_blank_append hf.name hw rfl, trimStart_append hw]
  exact trimStart_of_head (head?_substituteFrom hf.name hf.start hh)

/-- The indices after a name are read with the pass carried out in each. -/
theorem indexGroups_substituteFrom (hf : Quiet name f) (m : Nat) :
    indexGroups m (substituteFrom name max f none x) =
      ((indexGroups m x).1.map (substituteFrom name max f none),
        substituteFrom name max f none (indexGroups m x).2) := by
  induction m generalizing x with
  | zero => rfl
  | succ m ih =>
    rw [indexGroups, indexGroups, trimStart_substituteFrom hf]
    by_cases hopen : ∃ r, trimStart x = '[' :: r
    · obtain ⟨r, hr⟩ := hopen
      have hbracket : substituteFrom name max f none ('[' :: r) =
          '[' :: substituteFrom name max f none r := by
        rw [substituteFrom_cons hf.name rfl]
        exact congrArg _ (substituteFrom_congr hf.name rfl)
      rw [hr, hbracket]
      simp only [splitClose_substituteFrom hf]
      cases splitClose 0 r with
      | none => rfl
      | some p => simp only [Option.map_some, ih, List.map_cons]
    · have hout : ∀ r, substituteFrom name max f none (trimStart x) ≠ '[' :: r := fun r hr => by
        obtain ⟨r', hr', -⟩ := substituteFrom_eq_cons hf.name hf.start (.inr rfl) hr
        exact hopen ⟨r', hr'⟩
      split
      · rename_i r hr
        exact absurd hr (hout r)
      split
      · rename_i r hr
        exact absurd ⟨r, hr⟩ hopen
      · rfl

theorem assignSign?_joined {w : List Char} (hw : Blank w) (hc : isOperator c = true) :
    assignSign? (w ++ c :: '=' :: y) = some (some c, y) := by
  have hb : isBlank c = false := by
    cases hb : isBlank c with
    | false => rfl
    | true => simp [mark_eq_false (not_mark_of_blank hb)] at hc
  have ht : trimStart (w ++ c :: '=' :: y) = c :: '=' :: y := by
    rw [trimStart_append hw]
    exact trimStart_of_head (by simpa using hb)
  have hne : c ≠ '=' := by
    rintro rfl
    cases hc
  rw [assignSign?_cons_cons ht]
  simp [hne, hc]

/-- A plain sign is not followed by `=`. -/
theorem head?_of_assignSign? (h : assignSign? x = some (none, r)) : r.head? ≠ some '=' := by
  unfold assignSign? at h
  split at h
  · cases h
  · rename_i hne _
    cases h
    rcases r with _ | ⟨d, r⟩
    · simp
    · rw [List.head?_cons]
      rintro ⟨⟩
      exact hne r rfl
  · split at h <;> cases h
  · cases h

/-- The sign after a name is read as it was written. -/
theorem assignSign?_substituteFrom_eq (hf : Quiet name f) :
    assignSign? (substituteFrom name max f none x) =
      (assignSign? x).map fun p => (p.1, substituteFrom name max f none p.2) := by
  cases hs : assignSign? x with
  | none => exact assignSign?_substituteFrom hf.name hf.start hs
  | some p =>
    obtain ⟨op, r⟩ := p
    obtain ⟨w, sign, hw, hsign, rfl⟩ := assignSign?_eq hs
    have hcons : ∀ {c : Char} {y : List Char}, isMark c = true → c ≠ '.' →
        substituteFrom name max f none (c :: y) = c :: substituteFrom name max f none y := by
      intro c y hc hd
      rw [substituteFrom_cons hf.name (not_start_of_mark hc)]
      exact congrArg _ (substituteFrom_congr hf.name (joinsName_of_mark hc hd))
    rw [substituteFrom_blank_append hf.name hw rfl]
    cases hsign with
    | plain =>
      have hr := head?_of_assignSign? hs
      have hout : (substituteFrom name max f none r).head? ≠ some '=' := by
        intro h
        obtain ⟨y, hy⟩ : ∃ y, substituteFrom name max f none r = '=' :: y := by
          cases hz : substituteFrom name max f none r with
          | nil => simp [hz] at h
          | cons d y =>
            rw [hz, List.head?_cons] at h
            exact ⟨y, by rw [Option.some.inj h]⟩
        obtain ⟨r', rfl, -⟩ := substituteFrom_eq_cons hf.name hf.start (.inr rfl) hy
        exact hr rfl
      rw [List.singleton_append, hcons rfl (by decide), ← List.singleton_append]
      exact assignSign?_of_sign hw .plain hout
    | @joined c hc =>
      have hd : c ≠ '.' := by
        rintro rfl
        cases hc
      show assignSign? (w ++ substituteFrom name max f none (c :: '=' :: r)) = _
      rw [hcons (by simp [isMark, hc]) hd, hcons rfl (by decide)]
      exact assignSign?_joined hw hc

/-- The rest of a word is copied. -/
theorem after?_substituteFrom (hn : isIdentifier name = true) (hb : joinsName b = true)
    (hu : ∀ c ∈ ns, isIdent c = true) : after? ns (substituteFrom name max f b x) =
      (after? ns x).map (substituteFrom name max f (ns.getLast?.or b)) := by
  induction ns generalizing b x with
  | nil => rfl
  | cons n ns ih =>
    cases x with
    | nil => simp [substituteFrom_nil, after?]
    | cons c x =>
      rw [substituteFrom_copy hn (occurrence?_of_joins hb), after?, after?]
      split
      · rename_i hc
        subst hc
        rw [ih (joinsName_of_ident (hu n List.mem_cons_self)) fun c hc =>
          hu c (List.mem_cons_of_mem _ hc), List.getLast?_cons]
        cases ns.getLast? <;> rfl
      · rfl

/-- The character after a word decides whether the word ends there. -/
theorem head?_substituteFrom_joined (hn : isIdentifier name = true) (hb : joinsName b = true) :
    (substituteFrom name max f b x).head? = x.head? := by
  cases x with
  | nil => rw [substituteFrom_nil]
  | cons c x =>
    rw [substituteFrom_copy hn (occurrence?_of_joins hb)]
    rfl

theorem substituteFrom_fresh (hn : isIdentifier name = true) (h : x.head?.any isIdent = false) :
    substituteFrom name max f b x = substituteFrom name max f none x := by
  cases x with
  | nil => rw [substituteFrom_nil, substituteFrom_nil]
  | cons c x =>
    have hc : isIdentStart c = false := by
      cases hs : isIdentStart c with
      | false => rfl
      | true => simp [isIdent_of_start hs] at h
    rw [substituteFrom_cons hn hc, substituteFrom_cons hn hc]

/-- A name with its indices at the front of a text, and what follows them. -/
def target? (n : List Char) (m : Nat) (b : Option Char) (cs : List Char) :
    Option (List (List Char) × List Char) :=
  match after? n cs with
  | none => none
  | some r =>
    if joinsName b || r.head?.any isIdent then none
    else if (indexGroups m r).1 = [] then none else some (indexGroups m r)

theorem occurrence?_eq_target? (hn : isIdentifier n = true) (cs : List Char) :
    occurrence? n m b cs = (target? n m b cs).map fun p =>
      (assignment? p.2).elim (⟨p.1, none⟩, p.2) fun a => (⟨p.1, some a.1⟩, a.2) := by
  obtain ⟨d, ns, rfl, -⟩ := identifier_cons hn
  unfold occurrence? target?
  rcases after? (d :: ns) cs with _ | r
  · rfl
  simp only []
  split
  · rfl
  rcases hg : indexGroups m r with ⟨_ | ⟨i, is⟩, rest⟩
  · rfl
  · simp only [reduceCtorEq, if_false, Option.map_some]
    cases assignment? rest <;> rfl

/-- Where no use of its own name starts, a pass is carried out in the indices of a name and in what
follows them. -/
theorem target?_substituteFrom (hf : Quiet name f) (hm : isIdentifier n = true)
    (ho : occurrence? name max b (c :: r) = none) :
    target? n m b (substituteFrom name max f b (c :: r)) = (target? n m b (c :: r)).map fun p =>
      (p.1.map (substituteFrom name max f none), substituteFrom name max f none p.2) := by
  obtain ⟨d, ns, rfl, hd, hns⟩ := identifier_cons hm
  rw [substituteFrom_copy hf.name ho]
  unfold target?
  rw [after?, after?]
  by_cases hdc : d = c
  · subst hdc
    rw [if_pos rfl, if_pos rfl,
      after?_substituteFrom hf.name (joinsName_of_ident (isIdent_of_start hd)) hns]
    rcases after? ns r with _ | z
    · rfl
    have hjoin : joinsName (ns.getLast?.or (some d)) = true := by
      cases hl : ns.getLast? with
      | none => exact joinsName_of_ident (isIdent_of_start hd)
      | some e => exact joinsName_of_ident (hns e (List.mem_of_getLast? hl))
    simp only [Option.map_some, head?_substituteFrom_joined hf.name hjoin]
    split
    · rfl
    · rename_i hj
      rw [Bool.or_eq_true, not_or, Bool.not_eq_true, Bool.not_eq_true] at hj
      rw [substituteFrom_fresh hf.name hj.2, indexGroups_substituteFrom hf m]
      simp only [List.map_eq_nil_iff]
      split <;> rfl
  · rw [if_neg hdc, if_neg hdc]
    rfl

end Fronts

section Phrases

variable {d : Dialect} {name : List Char} {readWrite : Bool}

theorem staysOpen_call {word inner : List Char} {l : Nat} (hw : ∀ l, level? false l word = some l)
    (hi : StaysOpen 0 inner) : StaysOpen l (call word inner) := by
  obtain ⟨m, hm⟩ := Option.isSome_iff_exists.1 hi
  have hm' : level? false (0 + (l + 1)) inner = some (m + (l + 1)) := level?_add hm (by simp)
  rw [Nat.zero_add] at hm'
  unfold StaysOpen Body.call
  rw [level?_append, hw, Option.bind_some, level?_open_append rfl, level?_append, hm',
    Option.bind_some, show m + (l + 1) = m + l + 1 by omega, level?_close_append rfl]
  rfl

theorem StaysOpen.prepend {x y : List Char} (hx : Balanced x) (hy : StaysOpen 0 y) :
    StaysOpen 0 (x ++ y) := by
  unfold StaysOpen
  rw [level?_append, show level? false 0 x = some 0 from hx]
  exact hy

theorem keepsOpen_image (hn : isIdentifier name = true) :
    KeepsOpen (phraseImage d name readWrite) := by
  intro s hi hv hop
  have hcomma : Balanced ", ".toList := by decide
  have hrest : StaysOpen 0 (imageRest d name readWrite s) := by
    unfold imageRest
    rcases s with ⟨is, _ | ⟨_ | op, value⟩⟩
    · rw [StaysOpen, show level? false 0 _ = some 0 from balanced_loadLevel]
      rfl
    · exact StaysOpen.prepend hcomma (hv _ rfl)
    · have hsign : Balanced [' ', op, ' '] := by
        have ho := hop _ rfl op rfl
        simp only [isOperator, Bool.or_eq_true, beq_iff_eq] at ho
        rcases ho with ((rfl | rfl) | rfl) | rfl <;> decide
      exact StaysOpen.prepend hcomma (StaysOpen.prepend (balanced_imageLoad hn (balanced_text hi))
        (StaysOpen.prepend hsign (staysOpen_call (fun _ => rfl) (hv _ rfl))))
  rw [phraseImage_eq]
  refine staysOpen_call (fun l => level?_name (isIdentifier_function s)) ?_
  exact StaysOpen.prepend (level?_name hn)
    (StaysOpen.prepend hcomma (StaysOpen.prepend (balanced_text hi) hrest))

theorem keepsOpen_buffer (hn : isIdentifier name = true) : KeepsOpen (phraseBuffer .glsl name) := by
  intro s hi hv hop
  have hindex : Balanced (s.indices.head?.getD []) := head_index rfl hi
  have hrest : StaysOpen 0 (bufferRest s) := by
    unfold bufferRest
    rcases ha : s.assign with _ | a
    · rfl
    have hsign : Balanced (' ' :: (a.op.toList ++ ['=', ' '])) := by
      refine level?_plain ?_
      rcases ho : a.op with _ | op
      · decide
      · have hc := hop a ha op ho
        simp only [isOperator, Bool.or_eq_true, beq_iff_eq] at hc
        rcases hc with ((rfl | rfl) | rfl) | rfl <;> decide
    exact StaysOpen.prepend hsign (hv a ha)
  have hdata : Balanced ('.' :: "data".toList) := by decide
  unfold StaysOpen
  rw [phraseBuffer_eq, ← List.cons_append, level?_append, level?_name hn, Option.bind_some,
    level?_append, show level? false 0 _ = some 0 from hdata, Option.bind_some,
    level?_open_append rfl, level?_append, hindex.level (by simp), Option.bind_some,
    level?_close_append rfl]
  exact hrest

theorem quiet_image (hn : isIdentifier name = true) : Quiet name (phraseImage d name readWrite) :=
  ⟨hn, (phrasing_image hn).start, (phrasing_image hn).level, keepsOpen_image hn⟩

theorem quiet_buffer (hn : isIdentifier name = true) : Quiet name (phraseBuffer .glsl name) :=
  ⟨hn, (phrasing_buffer hn).start, (phrasing_buffer hn).level, keepsOpen_buffer hn⟩

end Phrases

end ComputeKernel.Body
