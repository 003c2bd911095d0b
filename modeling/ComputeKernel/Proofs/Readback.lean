import ComputeKernel.Proofs.Substitution
import ComputeKernel.Body.Uniform

/-!
# What a substitution leaves as it is

A substitution writes only what is made of uses, and that starts with an identifier. So what else
stands in its result stood in the text (`substituteFrom_eq_append`): no assignment sign comes to the
front of a text, no uniform marker comes about, and a text ends with an assignment of nothing only
if it did so before. Therefore a substitution and trimming may change places
(`trim_substituteFrom`).
-/

namespace ComputeKernel.Body

open Text

/-- What is made of a use starts with an identifier. -/
def StartsIdent (f : Subscript → List Char) : Prop :=
  ∀ s, ∃ c r, f s = c :: r ∧ isIdentStart c = true

section Copies

variable {name : List Char} {max : Nat} {f : Subscript → List Char} {b : Option Char} {c : Char}
  {u x y : List Char}

/-- A text in which no use can start, after the character `b`. -/
def Copied : Option Char → List Char → Prop
  | _, [] => True
  | b, c :: u => (joinsName b = true ∨ isIdentStart c = false) ∧ Copied (some c) u

theorem copied_of_not_start (h : ∀ c ∈ u, isIdentStart c = false) : Copied b u := by
  induction u generalizing b with
  | nil => trivial
  | cons c u ih =>
    exact ⟨.inr (h c List.mem_cons_self), ih fun d hd => h d (List.mem_cons_of_mem _ hd)⟩

theorem copied_of_joins (hb : joinsName b = true) (h : ∀ c ∈ u, joinsName (some c) = true) :
    Copied b u := by
  induction u generalizing b with
  | nil => trivial
  | cons c u ih =>
    exact ⟨.inl hb, ih (h c List.mem_cons_self) fun d hd => h d (List.mem_cons_of_mem _ hd)⟩

theorem substituteFrom_eq_nil (hn : isIdentifier name = true) (hf : StartsIdent f)
    (h : substituteFrom name max f b x = []) : x = [] := by
  cases x with
  | nil => rfl
  | cons c r =>
    rcases ho : occurrence? name max b (c :: r) with _ | ⟨s, rest⟩
    · rw [substituteFrom_copy hn ho] at h
      cases h
    · rw [substituteFrom_use hn ho] at h
      obtain ⟨d, t, hd, -⟩ := hf (s.map (substituteFrom name max f none))
      rw [hd] at h
      cases h

theorem substituteFrom_eq_cons (hn : isIdentifier name = true) (hf : StartsIdent f)
    (hc : joinsName b = true ∨ isIdentStart c = false)
    (h : substituteFrom name max f b x = c :: y) :
    ∃ r, x = c :: r ∧ y = substituteFrom name max f (some c) r := by
  cases x with
  | nil =>
    rw [substituteFrom_nil] at h
    cases h
  | cons d r =>
    rcases ho : occurrence? name max b (d :: r) with _ | ⟨s, rest⟩
    · rw [substituteFrom_copy hn ho] at h
      cases h
      exact ⟨r, rfl, rfl⟩
    · have hb := (occurrence?_isUse ho).1
      rw [substituteFrom_use hn ho] at h
      obtain ⟨e, t, he, hs⟩ := hf (s.map (substituteFrom name max f none))
      rw [he] at h
      cases h
      simp [hb, hs] at hc

/-- A text in which no use can start was copied if it is in front of the result. -/
theorem substituteFrom_eq_append (hn : isIdentifier name = true) (hf : StartsIdent f)
    (hu : Copied b u) (h : substituteFrom name max f b x = u ++ y) :
    ∃ r, x = u ++ r ∧ y = substituteFrom name max f (u.getLast?.or b) r := by
  induction u generalizing b x with
  | nil => exact ⟨x, rfl, h.symm⟩
  | cons c u ih =>
    obtain ⟨r, rfl, hr⟩ := substituteFrom_eq_cons hn hf hu.1 h
    obtain ⟨r', rfl, hy⟩ := ih hu.2 hr.symm
    refine ⟨r', rfl, ?_⟩
    rw [hy]
    cases u with
    | nil => rfl
    | cons d u =>
      rw [List.getLast?_cons_cons, List.getLast?_cons]
      rfl

end Copies

section Signs

variable {name w x : List Char} {max : Nat} {f : Subscript → List Char} {b : Option Char}

theorem joinsName_of_blank {c : Char} (h : isBlank c = true) : joinsName (some c) = false := by
  cases hi : isIdent c with
  | true => simp [not_blank_of_ident hi] at h
  | false => simp [joinsName, hi, (mark_eq_false (not_mark_of_blank h)).2.2.2.2.2]

theorem substituteFrom_blank_append (hn : isIdentifier name = true) (hw : Blank w)
    (hb : joinsName b = false) : substituteFrom name max f b (w ++ x) =
      w ++ substituteFrom name max f none x := by
  induction w generalizing b with
  | nil => exact substituteFrom_congr hn hb
  | cons c w ih =>
    obtain ⟨hc, hw⟩ := blank_cons.1 hw
    rw [List.cons_append, substituteFrom_cons hn (not_start_of_blank hc),
      ih hw (joinsName_of_blank hc)]
    rfl

/-- A text without a blank in front is replaced by one without. -/
theorem head?_substituteFrom (hn : isIdentifier name = true) (hf : StartsIdent f)
    (h : x.head?.any isBlank = false) :
    (substituteFrom name max f b x).head?.any isBlank = false := by
  cases x with
  | nil =>
    rw [substituteFrom_nil]
    rfl
  | cons c r =>
    rcases ho : occurrence? name max b (c :: r) with _ | ⟨s, rest⟩
    · rw [substituteFrom_copy hn ho]
      exact h
    · rw [substituteFrom_use hn ho]
      obtain ⟨d, t, hd, hs⟩ := hf (s.map (substituteFrom name max f none))
      rw [hd]
      simpa using not_blank_of_ident (isIdent_of_start hs)

/-- No assignment sign comes to the front of a text. -/
theorem assignSign?_substituteFrom (hn : isIdentifier name = true) (hf : StartsIdent f)
    (h : assignSign? x = none) : assignSign? (substituteFrom name max f none x) = none := by
  obtain ⟨w, hw, hx, hh⟩ := exists_trimStart x
  have hout : trimStart (substituteFrom name max f none x) =
      substituteFrom name max f none (trimStart x) := by
    conv =>
      lhs
      rw [hx, substituteFrom_blank_append hn hw rfl, trimStart_append hw]
    exact trimStart_of_head (head?_substituteFrom hn hf hh)
  have hmark : ∀ c, c = '=' ∨ isOperator c = true → isIdentStart c = false := by
    intro c hc
    refine not_start_of_mark ?_
    rcases hc with rfl | hc
    · rfl
    · simp [isMark, hc]
  -- A sign in front of the result would have been copied from the front of the text.
  cases hs : assignSign? (substituteFrom name max f none x) with
  | none => rfl
  | some p =>
    obtain ⟨op, r⟩ := p
    unfold assignSign? at hs
    rw [hout] at hs
    split at hs
    · cases hs
    · rename_i r' hne ht
      obtain ⟨t, ht', hr⟩ := substituteFrom_eq_cons hn hf (.inr (hmark _ (.inl rfl))) ht
      rcases t with _ | ⟨d, t⟩
      · simp [assignSign?_single ht'] at h
      · by_cases hd : d = '='
        · subst hd
          rw [substituteFrom_cons hn (hmark _ (.inl rfl))] at hr
          exact absurd hr (hne _)
        · simp [assignSign?_cons_cons ht', hd] at h
    · rename_i c r' hne ht
      split at hs
      · rename_i ho
        obtain ⟨t, ht', hr⟩ := substituteFrom_eq_cons hn hf (.inr (hmark _ (.inr ho))) ht
        obtain ⟨t', rfl, -⟩ := substituteFrom_eq_cons hn hf (.inr (hmark _ (.inl rfl))) hr.symm
        have hc : c ≠ '=' := by
          rintro rfl
          cases ho
        simp [assignSign?_cons_cons ht', hc, ho] at h
      · cases hs
    · cases hs

end Signs

section Markers

/-- A text without a uniform marker. -/
def MarkerFree (x : List Char) : Prop := ¬ uniformMarker <:+: x

instance (x : List Char) : Decidable (MarkerFree x) := inferInstanceAs (Decidable (¬ _))

variable {name : List Char} {max : Nat} {f : Subscript → List Char} {b : Option Char}
  {x y : List Char}

theorem MarkerFree.of_isInfix (h : MarkerFree y) (hx : x <:+: y) : MarkerFree x := fun hm =>
  h (hm.trans hx)

/-- A marker has two dots. -/
theorem markerFree_of_count (h : x.count '.' ≤ 1) : MarkerFree x := by
  intro hm
  have hc : uniformMarker.count '.' ≤ x.count '.' := hm.sublist.count_le '.'
  have h2 : uniformMarker.count '.' = 2 := by decide
  omega

theorem joinsName_of_mem_marker {c : Char} (h : c ∈ uniformMarker) : joinsName (some c) = true := by
  have hall : uniformMarker.all (fun c => joinsName (some c)) = true := by decide
  exact List.all_eq_true.1 hall c h

/-- A marker does not go over a seam at which characters do not join. -/
theorem MarkerFree.append (hx : MarkerFree x) (hy : MarkerFree y)
    (h : joinsName x.getLast? = false ∨ joinsName y.head? = false) : MarkerFree (x ++ y) := by
  rintro ⟨p, q, hm⟩
  rw [List.append_assoc] at hm
  rcases List.append_eq_append_iff.1 hm with ⟨a, rfl, ha⟩ | ⟨a, rfl, rfl⟩
  · rcases List.append_eq_append_iff.1 ha with ⟨a', rfl, rfl⟩ | ⟨a', ha', rfl⟩
    · exact hx ⟨p, a', by simp⟩
    · rcases a with _ | ⟨c, a⟩
      · rw [List.nil_append] at ha'
        exact hy ⟨[], q, by rw [ha', List.nil_append]⟩
      · rcases a' with _ | ⟨d, a'⟩
        · exact hx ⟨p, [], by rw [ha']; simp⟩
        · obtain ⟨e, he⟩ : ∃ e, (c :: a).getLast? = some e := ⟨_, List.getLast?_cons⟩
          have hem : e ∈ uniformMarker := by
            rw [ha']
            exact List.mem_append_left _ (List.mem_of_getLast? he)
          have hdm : d ∈ uniformMarker := by
            rw [ha']
            exact List.mem_append_right _ List.mem_cons_self
          rw [List.getLast?_append, he, List.cons_append, List.head?_cons] at h
          simp [joinsName_of_mem_marker hem, joinsName_of_mem_marker hdm] at h
  · exact hy ⟨a, q, by simp⟩

/-- What is made of a use has no marker if its parts have none, and what is made of a use that is no
assignment does not join with what follows. -/
structure KeepsMarkers (f : Subscript → List Char) : Prop where
  free : ∀ s, (∀ i ∈ s.indices, MarkerFree i) → (∀ a ∈ s.assign, MarkerFree a.value) →
    MarkerFree (f s)
  load : ∀ s, s.assign = none → joinsName (f s).getLast? = false

theorem Indices.isInfix {is : List (List Char)} {g : List Char} (h : Indices is g) :
    ∀ i ∈ is, i <:+: g := by
  induction h with
  | nil => simp
  | @cons blanks i k is g _ _ _ _ ih =>
    refine List.forall_mem_cons.2 ⟨⟨blanks ++ ['['], k :: g, by simp⟩, fun j hj => ?_⟩
    exact (ih j hj).trans ⟨blanks ++ '[' :: (i ++ [k]), [], by simp⟩

theorem isInfix_trim (x : List Char) : trim x <:+: x := by
  obtain ⟨a, b, -, -, hx, -⟩ := exists_trim x
  exact ⟨a, b, hx.symm⟩

theorem IsUse.isInfix {s : Subscript} {cs rest : List Char} (h : IsUse name s cs rest) :
    (∀ i ∈ s.indices, i <:+: cs) ∧ (∀ a ∈ s.assign, a.value <:+: cs) ∧ rest <:+: cs := by
  cases h with
  | @load is g _ hi _ =>
    refine ⟨fun i hm => (hi.isInfix i hm).trans ⟨name, rest, by simp⟩, by simp,
      ⟨name ++ g, [], by simp⟩⟩
  | @store is g blanks sign v _ op m hi _ _ _ _ _ =>
    refine ⟨fun i hm => (hi.isInfix i hm).trans ⟨name, blanks ++ (sign ++ (v ++ rest)), by simp⟩,
      fun a ha => ?_, ⟨name ++ (g ++ (blanks ++ (sign ++ v))), [], by simp⟩⟩
    cases ha
    exact (isInfix_trim v).trans ⟨name ++ (g ++ (blanks ++ sign)), rest, by simp⟩

/-- A marker in front of the result of a substitution was in front of the text. -/
theorem marker_in_front (hn : isIdentifier name = true) (hf : StartsIdent f) {c : Char}
    (h : uniformMarker <+: c :: substituteFrom name max f (some c) x) :
    uniformMarker <+: c :: x := by
  obtain ⟨y, hy⟩ := h
  have hm : uniformMarker = 't' :: "his.uniform.".toList := rfl
  rw [hm, List.cons_append] at hy
  obtain ⟨rfl, hy⟩ := List.cons.inj hy
  have hu : Copied (some 't') "his.uniform.".toList := by
    refine copied_of_joins rfl fun c hc => joinsName_of_mem_marker ?_
    exact hm ▸ List.mem_cons_of_mem 't' hc
  obtain ⟨r, rfl, -⟩ := substituteFrom_eq_append hn hf hu hy.symm
  exact ⟨r, rfl⟩

theorem MarkerFree.substituteFrom (hn : isIdentifier name = true) (hf : StartsIdent f)
    (hm : KeepsMarkers f) (h : MarkerFree x) :
    MarkerFree (Body.substituteFrom name max f b x) := by
  refine substituteFrom_induct (f := f) hn (P := fun _ x y => MarkerFree x → MarkerFree y)
    (fun _ h => h) (fun b c r ho ih h => ?_) (fun b cs s rest ho hi ha hr h => ?_) b x h
  · intro hmark
    rcases List.infix_cons_iff.1 hmark with hp | hin
    · exact h (marker_in_front hn hf hp).isInfix
    · exact ih (h.of_isInfix (List.suffix_cons c r).isInfix) hin
  · obtain ⟨hin, han, hrn⟩ := (occurrence?_isUse ho).2.isInfix
    obtain ⟨hi', ha'⟩ := s.forall_map (P := MarkerFree) (Q := MarkerFree)
      (fun i hm => hi i hm (h.of_isInfix (hin i hm))) fun a hm => ha a hm (h.of_isInfix (han a hm))
    refine (hm.free _ hi' ha').append (hr (h.of_isInfix hrn)) ?_
    cases (occurrence?_isUse ho).2 with
    | load _ _ => exact .inl (hm.load _ rfl)
    | store _ _ _ _ _ hstop =>
      right
      rcases hstop with rfl | ⟨-, hstop⟩
      · rw [substituteFrom_nil]
        rfl
      · cases rest with
        | nil => cases hstop
        | cons k rest =>
          have hk : isStop k = true := by simpa using hstop
          rw [substituteFrom_stop_cons hn hk]
          exact joinsName_of_stop hk

/-- Nothing is taken out of a text without a marker. -/
theorem MarkerFree.dropMarkers (h : MarkerFree x) : Body.dropMarkers x = x := by
  unfold Body.dropMarkers replaceAll
  generalize none = b
  induction x generalizing b with
  | nil => simp [cut]
  | cons c x ih =>
    have hfind : after? uniformMarker (c :: x) = none := by
      cases ha : after? uniformMarker (c :: x) with
      | none => rfl
      | some rest => exact absurd ⟨[], rest, (after?_eq_some ha).symm⟩ h
    rw [cut]
    simp only [hfind, Option.map_none, List.flatMap_cons, List.singleton_append]
    rw [ih (h.of_isInfix (List.suffix_cons c x).isInfix)]

end Markers

section Dangling

/-- A text that ends with an assignment of nothing to `name[i]`, after the character `b`. -/
inductive Dangles (name : List Char) : Option Char → List Char → Prop
  | here {b : Option Char} {w i w' sign w'' : List Char} {k : Char} {op : Option Char}
    (hj : joinsName b = false) (hw : Blank w) (hi : Balanced i) (hk : isClose k = true)
    (hw' : Blank w') (hs : Sign op sign) (hw'' : Blank w'') :
    Dangles name b (name ++ (w ++ '[' :: (i ++ k :: (w' ++ (sign ++ w'')))))
  | later {b : Option Char} {c : Char} {r : List Char} (h : Dangles name (some c) r) :
    Dangles name b (c :: r)

variable {n : List Char} {b b' : Option Char} {c e k : Char} {stop : Bool} {l : Nat}
  {u w x y z r : List Char}

theorem Dangles.congr (h : Dangles n b x) (hb : joinsName b = joinsName b') : Dangles n b' x := by
  cases h with
  | here hj hw hi hk hw' hs hw'' => exact .here (hb ▸ hj) hw hi hk hw' hs hw''
  | later h => exact .later h

theorem Dangles.prepend (h : Dangles n (u.getLast?.or b) x) : Dangles n b (u ++ x) := by
  induction u generalizing b with
  | nil => exact h
  | cons c u ih =>
    refine .later (ih ?_)
    cases u with
    | nil => exact h
    | cons d u =>
      rw [List.getLast?_cons_cons, List.getLast?_cons] at h
      rw [List.getLast?_cons]
      exact h

theorem Dangles.append_blank (h : Dangles n b x) (hw : Blank w) : Dangles n b (x ++ w) := by
  induction h with
  | here hj hw₁ hi hk hw' hs hw'' =>
    have h : Dangles n _ _ := .here hj hw₁ hi hk hw' hs (hw''.append hw)
    simpa using h
  | later _ ih => exact .later ih

theorem Dangles.tail (hn : isIdentifier n = true) (h : Dangles n b (c :: r))
    (hc : joinsName b = true ∨ isIdentStart c = false) : Dangles n (some c) r := by
  generalize hx : c :: r = x at h
  cases h with
  | here hj =>
    obtain ⟨d, ns, rfl, hs, -⟩ := identifier_cons hn
    rw [List.cons_append] at hx
    cases hx
    simp [hj, hs] at hc
  | later h =>
    cases hx
    exact h

theorem not_dangles_nil (hn : isIdentifier n = true) : ¬ Dangles n b [] := by
  intro h
  generalize hx : [] = x at h
  cases h with
  | here =>
    obtain ⟨d, ns, rfl, -⟩ := identifier_cons hn
    cases hx
  | later => cases hx

/-- A word that no index follows is not what is assigned to. -/
theorem Dangles.word (hn : isIdentifier n = true) (hu : ∀ c ∈ u, isIdent c = true)
    (he : isIdent e = false ∧ isBlank e = false ∧ e ≠ '[') (h : Dangles n b (u ++ e :: y)) :
    Dangles n (some e) y := by
  have hes : isIdentStart e = false := by
    cases hs : isIdentStart e with
    | false => rfl
    | true => simp [isIdent_of_start hs] at he
  induction u generalizing b with
  | nil => exact h.tail hn (.inr hes)
  | cons c u ih =>
    have hu' : ∀ c ∈ u, isIdent c = true := fun d hd => hu d (List.mem_cons_of_mem _ hd)
    generalize hx : c :: u ++ e :: y = x at h
    cases h with
    | later h =>
      cases hx
      exact ih hu' h
    | @here _ w i w' sign w'' k op hj hw =>
      obtain ⟨-, hor⟩ := word_unique (fun _ => ident_of_mem hn) hu hw he.1 hx.symm
      simp [he] at hor

/-- What is assigned to at the end of a text is not within brackets, nor before a `;`. -/
theorem Dangles.past_stop (hn : isIdentifier n = true) (hz : level? stop l z = some 0)
    (hk : isClose k = true ∨ stop = true ∧ k = ';') (h : Dangles n b (z ++ k :: y)) :
    Dangles n (some k) y := by
  have hks : isIdentStart k = false := by
    refine not_start_of_stop ?_
    rcases hk with hk | ⟨-, rfl⟩
    · simp [isStop, hk]
    · rfl
  induction z generalizing b l with
  | nil => exact h.tail hn (.inr hks)
  | cons c z ih =>
    generalize hx : c :: z ++ k :: y = x at h
    cases h with
    | later h =>
      cases hx
      rw [level?_cons] at hz
      obtain ⟨l', -, hz⟩ := Option.bind_eq_some_iff.1 hz
      exact ih hz h
    | @here _ w i w' sign w'' k' op hj hw hi hk' hw' hs hw'' =>
      have hlevel :
          level? stop 0 (n ++ (w ++ '[' :: (i ++ k' :: (w' ++ (sign ++ w''))))) = some 0 := by
        rw [level?_append, level?_name hn, Option.bind_some, level?_append, level?_blank hw,
          Option.bind_some, level?_open_append rfl, level?_append, hi.level (by simp),
          Option.bind_some, level?_close_append hk', level?_append, level?_blank hw',
          Option.bind_some, level?_append, hs.level, Option.bind_some, level?_blank hw'']
      rw [← hx, level?_stop hz (Nat.zero_le l) hk] at hlevel
      cases hlevel

end Dangling

section Trimming

variable {name n : List Char} {max : Nat} {f : Subscript → List Char} {b : Option Char} {l : Nat}
  {s : Subscript} {x cs rest v w : List Char}

/-- An assignment of nothing at the end of what follows a use is at the end of the text. -/
theorem IsUse.dangles (hm : isIdentifier n = true) (h : IsUse name s cs rest)
    (hd : Dangles n none rest) : Dangles n b cs := by
  cases h with
  | @load is g _ hi hne =>
    obtain ⟨k, hk, hl⟩ := hi.getLast? hne
    rw [← List.append_assoc]
    refine (hd.congr ?_).prepend
    rw [List.getLast?_append, hl]
    exact (joinsName_of_stop (by simp [isStop, hk])).symm
  | @store is g blanks sign v _ op m hi hne _ _ _ hr =>
    rcases hr with rfl | ⟨-, hr⟩
    · exact absurd hd (not_dangles_nil hm)
    · cases rest with
      | nil => cases hr
      | cons k rest =>
        have hk : isStop k = true := by simpa using hr
        have hd' : Dangles n ((name ++ (g ++ (blanks ++ (sign ++ v)))).getLast?.or b) (k :: rest) :=
          .later (hd.tail hm (.inr (not_start_of_stop hk)))
        simpa using hd'.prepend

theorem Dangles.untrim (h : Dangles n b (trim x)) (hb : joinsName b = false) : Dangles n b x := by
  obtain ⟨a, w, ha, hw, hx, -⟩ := exists_trim x
  rw [hx, List.append_assoc]
  refine ((h.append_blank hw).congr ?_).prepend
  cases hl : a.getLast? with
  | none => rfl
  | some c =>
    rw [Option.some_or, hb, joinsName_of_blank (ha c (List.mem_of_getLast? hl))]

/-- An assignment of nothing at the end of the value of a use is at the end of the text. -/
theorem IsUse.dangles_value (h : IsUse name s cs []) {a : Assignment} (ha : a ∈ s.assign)
    (hd : Dangles n none a.value) : Dangles n b cs := by
  cases h with
  | load => cases ha
  | @store is g blanks sign v _ op m _ _ _ hs _ _ =>
    cases ha
    have hsign : sign.getLast? = some '=' := by cases hs <;> rfl
    have hv : Dangles n (some '=') v := (hd.untrim rfl).congr rfl
    have hv' : Dangles n ((name ++ (g ++ (blanks ++ sign))).getLast?.or b) v := by
      simpa [List.getLast?_append, hsign] using hv
    simpa using hv'.prepend

/-- What is made of a use ends with an assignment of nothing only if its value does. -/
def KeepsEnds (f : Subscript → List Char) : Prop :=
  ∀ n b s y, isIdentifier n = true → s.WellFormed →
    (s.assign = none ∨ y = [] ∨ y.head?.any isStop = true) → Dangles n b (f s ++ y) →
    Dangles n none y ∨ y = [] ∧ ∃ a ∈ s.assign, Dangles n none a.value

theorem Sign.not_start {op : Option Char} {sign : List Char} (h : Sign op sign) :
    ∀ c ∈ sign, isIdentStart c = false := by
  cases h with
  | plain => simp [show isIdentStart '=' = false from rfl]
  | @joined c hc =>
    have hm : isIdentStart c = false := not_start_of_mark (by simp [isMark, hc])
    simp [hm, show isIdentStart '=' = false from rfl]

/-- What a text is assigned to was copied with its sign if it starts with a character that was. -/
theorem Dangles.of_copied {w i w' sign w'' r : List Char} {c k : Char} {op : Option Char}
    (hn : isIdentifier name = true) (hm : isIdentifier n = true) (hf : StartsIdent f)
    (hl : KeepsLevel f) (hx : level? false l (c :: r) = some 0) (hj : joinsName b = false)
    (hw : Blank w) (hi : Balanced i) (hk : isClose k = true) (hw' : Blank w') (hs : Sign op sign)
    (hw'' : Blank w'') (h : c :: substituteFrom name max f (some c) r =
      n ++ (w ++ '[' :: (i ++ k :: (w' ++ (sign ++ w''))))) : Dangles n b (c :: r) := by
  obtain ⟨d, ns, rfl, hd, hns⟩ := identifier_cons hm
  rw [List.cons_append] at h
  obtain ⟨rfl, h₀⟩ := List.cons.inj h
  have hcn : Copied (some c) ns := copied_of_joins (joinsName_of_ident (isIdent_of_start hd))
    fun e he => joinsName_of_ident (hns e he)
  obtain ⟨r₁, rfl, h₁⟩ := substituteFrom_eq_append hn hf hcn h₀
  have hcw : ∀ b, Copied b (w ++ ['[']) := fun b => by
    refine copied_of_not_start fun e he => ?_
    rcases List.mem_append.1 he with he | he
    · exact not_start_of_blank (hw e he)
    · exact List.mem_singleton.1 he ▸ rfl
  rw [← List.singleton_append, ← List.append_assoc] at h₁
  obtain ⟨r₂, rfl, h₂⟩ := substituteFrom_eq_append hn hf (hcw _) h₁.symm
  have hr₂ : level? false (l + 1) r₂ = some 0 := by
    rw [← List.cons_append, level?_append, level?_name hm, Option.bind_some, level?_append,
      level?_append, level?_blank hw, Option.bind_some, level?_open_append rfl] at hx
    exact hx
  obtain ⟨i₂, k₂, r₃, hk₂, rfl, hi₂, hr₃⟩ := exists_splitClose hr₂ (Nat.succ_pos l)
  -- Both sides are a balanced text and a bracket that closes, so they agree part by part.
  have h₃ : substituteFrom name max f none (i₂ ++ k₂ :: r₃) = _ :=
    substituteFrom_stop hn hi₂ (by simp [isStop, hk₂])
  have hsplit : splitClose 0 (i ++ k :: (w' ++ (sign ++ w''))) =
      some (substituteFrom name max f none i₂, substituteFrom name max f none r₃) := by
    rw [h₂, List.getLast?_append, List.getLast?_singleton, Option.some_or, Option.some_or,
      substituteFrom_congr hn (show joinsName (some '[') = joinsName none from rfl), h₃]
    exact splitClose_of_level (level?_substituteFrom hn hl hi₂) hk₂
  rw [splitClose_of_level hi hk] at hsplit
  obtain ⟨hi', hr'⟩ := Prod.mk.inj (Option.some.inj hsplit)
  have hct : Copied none (w' ++ (sign ++ w'')) := by
    refine copied_of_not_start fun e he => ?_
    rcases List.mem_append.1 he with he | he
    · exact not_start_of_blank (hw' e he)
    · rcases List.mem_append.1 he with he | he
      · exact hs.not_start e he
      · exact not_start_of_blank (hw'' e he)
  rw [← List.append_nil (w' ++ (sign ++ w''))] at hr'
  obtain ⟨r₄, rfl, h₄⟩ := substituteFrom_eq_append hn hf hct hr'.symm
  obtain rfl := substituteFrom_eq_nil hn hf h₄.symm
  have hd : Dangles (c :: ns) b _ := .here hj hw hi₂ hk₂ hw' hs hw''
  simpa using hd

/-- The result of a substitution ends with an assignment of nothing only if the text does. -/
theorem Dangles.of_substituteFrom (hn : isIdentifier name = true) (hm : isIdentifier n = true)
    (hf : StartsIdent f) (hl : KeepsLevel f) (he : KeepsEnds f) (hx : level? false l x = some 0)
    (h : Dangles n b (substituteFrom name max f b x)) : Dangles n b x := by
  refine substituteFrom_induct (f := f) hn
    (P := fun b x y => ∀ l, level? false l x = some 0 → Dangles n b y → Dangles n b x)
    (fun _ _ _ h => h) (fun b c r ho ih l hx h => ?_)
    (fun b cs s rest ho hi ha hr l hx h => ?_) b x l hx h
  · generalize hy : c :: substituteFrom name max f (some c) r = y at h
    cases h with
    | here hj hw hi hk hw' hs hw'' =>
      exact .of_copied hn hm hf hl hx hj hw hi hk hw' hs hw'' hy
    | later h =>
      cases hy
      rw [level?_cons] at hx
      obtain ⟨l', -, hr⟩ := Option.bind_eq_some_iff.1 hx
      exact .later (ih l' hr h)
  · have huse := (occurrence?_isUse ho).2
    obtain ⟨hw, hrl⟩ := huse.level hn hx
    have hw' : (s.map (substituteFrom name max f none)).WellFormed :=
      hw.map (fun i hm => level?_substituteFrom hn hl (hw.indices i hm))
        fun a hm => level?_substituteFrom hn hl (hw.value a hm)
    have hend : (s.map (substituteFrom name max f none)).assign = none ∨
        substituteFrom name max f none rest = [] ∨
        (substituteFrom name max f none rest).head?.any isStop = true := by
      cases huse with
      | load => exact .inl rfl
      | store _ _ _ _ _ hstop =>
        rcases hstop with rfl | ⟨-, hstop⟩
        · exact .inr (.inl substituteFrom_nil)
        · cases rest with
          | nil => cases hstop
          | cons k rest =>
            have hk : isStop k = true := by simpa using hstop
            rw [substituteFrom_stop_cons hn hk]
            exact .inr (.inr hstop)
    rcases he n b _ _ hm hw' hend h with hd | ⟨hnil, a', hmem, hd⟩
    · exact huse.dangles hm (hr l hrl hd)
    · obtain rfl := substituteFrom_eq_nil hn hf hnil
      obtain ⟨a, has, rfl⟩ := Option.map_eq_some_iff.1 hmem
      exact huse.dangles_value has (ha a has 0 (IsValue.balanced (hw.value a has)) hd)

theorem length_indexGroups (max : Nat) (cs : List Char) :
    (indexGroups max cs).1.length ≤ max := by
  induction max generalizing cs with
  | zero => simp [indexGroups]
  | succ max ih =>
    rw [indexGroups]
    split
    · split
      · simpa using ih _
      · simp
    · simp

theorem occurrence?_indices (h : occurrence? name max b cs = some (s, rest)) :
    s.indices.length ≤ max := by
  unfold occurrence? at h
  split at h
  · cases h
  split at h
  · cases h
  rename_i r _
  split at h
  · cases h
  have hl := length_indexGroups max r
  split at h
  · cases h
  rename_i i is rest' hg
  rw [hg] at hl
  split at h <;> cases h <;> exact hl

theorem blank_of_trim (h : trim x = []) : Blank x := by
  obtain ⟨a, w, ha, hw, hx, -⟩ := exists_trim x
  rw [h, List.append_nil] at hx
  rw [hx]
  exact ha.append hw

/-- A use with one index that assigns nothing and ends the text. -/
theorem dangles_of_occurrence (h : occurrence? name 1 b cs = some (s, [])) {a : Assignment}
    (ha : a ∈ s.assign) (hv : a.value = []) : Dangles name b cs := by
  obtain ⟨hj, huse⟩ := occurrence?_isUse h
  have hlen := occurrence?_indices h
  cases huse with
  | load => cases ha
  | @store is g blanks sign v _ op m hi hne hb hs _ _ =>
    cases ha
    cases hi with
    | nil => exact absurd rfl hne
    | cons hw hi hk hrest =>
      cases hrest with
      | nil =>
        have hd : Dangles name b _ := .here hj hw hi hk hb hs (blank_of_trim hv)
        simpa using hd
      | cons => simp at hlen

/-- What is made of a use ends with no blank, unless its value is empty or ends with one. -/
def EndsWithValue (f : Subscript → List Char) : Prop :=
  ∀ s, (f s).getLast?.any isBlank = true →
    ∃ a ∈ s.assign, a.value = [] ∨ a.value.getLast?.any isBlank = true

/-- What is made of a use never ends with a blank. -/
def EndsTight (f : Subscript → List Char) : Prop := ∀ s, (f s).getLast?.any isBlank = false

theorem getLast?_append_any {p : Char → Bool} {x y : List Char} (hy : y ≠ []) :
    (x ++ y).getLast?.any p = y.getLast?.any p := by
  obtain ⟨c, hc⟩ := Option.isSome_iff_exists.1 (List.getLast?_isSome.2 hy)
  rw [List.getLast?_append, hc]
  rfl

/-- A text that does not end with a blank is replaced by one that does not. -/
theorem getLast?_substituteFrom (hn : isIdentifier name = true) (hf : StartsIdent f)
    (hv : EndsWithValue f) (hx : level? false l x = some 0) (ht : x.getLast?.any isBlank = false)
    (hd : EndsTight f ∨ max = 1 ∧ ¬ Dangles name b x) :
    (substituteFrom name max f b x).getLast?.any isBlank = false := by
  refine substituteFrom_induct (f := f) hn
    (P := fun b x y => ∀ l, level? false l x = some 0 → x.getLast?.any isBlank = false →
      (EndsTight f ∨ max = 1 ∧ ¬ Dangles name b x) → y.getLast?.any isBlank = false)
    (fun _ _ _ h _ => h) (fun b c r ho ih l hx ht hd => ?_)
    (fun b cs s rest ho _ ha hr l hx ht hd' => ?_) b x l hx ht hd
  · by_cases hr : r = []
    · subst hr
      rw [substituteFrom_nil]
      exact ht
    · have hne : substituteFrom name max f (some c) r ≠ [] := fun h =>
        hr (substituteFrom_eq_nil hn hf h)
      rw [level?_cons] at hx
      obtain ⟨l', -, hl⟩ := Option.bind_eq_some_iff.1 hx
      rw [← List.singleton_append] at ht ⊢
      rw [getLast?_append_any hr] at ht
      rw [getLast?_append_any hne]
      exact ih l' hl ht (hd.imp_right fun hd => ⟨hd.1, fun h => hd.2 (.later h)⟩)
  · have huse := (occurrence?_isUse ho).2
    obtain ⟨hw, hrl⟩ := huse.level hn hx
    by_cases hne : rest = []
    · subst hne
      rw [substituteFrom_nil, List.append_nil]
      cases hb : (f (s.map (substituteFrom name max f none))).getLast?.any isBlank with
      | false => rfl
      | true =>
        rcases hd' with hd' | ⟨rfl, hd'⟩
        · simp [hd' _] at hb
        obtain ⟨a', hm, ha'⟩ := hv _ hb
        obtain ⟨a, has, rfl⟩ := Option.map_eq_some_iff.1 hm
        rcases ha' with hnil | hblank
        · exact absurd (dangles_of_occurrence ho has (substituteFrom_eq_nil hn hf hnil)) hd'
        · have hta : a.value.getLast?.any isBlank = false := by
            cases huse with
            | load => cases has
            | store =>
              cases has
              exact (exists_trim _).choose_spec.choose_spec.2.2.2.last
          have := ha a has 0 (IsValue.balanced (hw.value a has)) hta
            (.inr ⟨rfl, fun h => hd' (huse.dangles_value has h)⟩)
          exact absurd hblank (by rw [this]; simp)
    · have hne' : substituteFrom name max f none rest ≠ [] := fun h =>
        hne (substituteFrom_eq_nil hn hf h)
      rw [getLast?_append_any hne']
      refine hr l hrl ?_ (hd'.imp_right fun hd => ⟨hd.1, fun h => hd.2 (huse.dangles hn h)⟩)
      obtain ⟨p, hp⟩ : ∃ p, cs = p ++ rest := by
        cases huse with
        | @load is g => exact ⟨name ++ g, by simp⟩
        | @store is g blanks sign v => exact ⟨name ++ (g ++ (blanks ++ (sign ++ v))), by simp⟩
      rwa [hp, getLast?_append_any hne] at ht

/-- A substitution and trimming may change places. -/
theorem trim_substituteFrom (hn : isIdentifier name = true) (hf : StartsIdent f)
    (hv : EndsWithValue f) (hx : Balanced x) (hd : EndsTight f ∨ max = 1 ∧ ¬ Dangles name none x) :
    substituteFrom name max f none (trim x) = trim (substituteFrom name max f none x) := by
  obtain ⟨a, w, ha, hw, hxt, htr⟩ := exists_trim x
  have hl : level? false 0 (trim x) = some 0 := level?_trim hx
  obtain ⟨w', hw', h⟩ := substituteFrom_append_blank (f := f) (b := none) hn hl hw
  have hout : Trimmed (substituteFrom name max f none (trim x)) := by
    refine ⟨head?_substituteFrom hn hf htr.head, getLast?_substituteFrom hn hf hv hl htr.last ?_⟩
    exact hd.imp_right fun hd => ⟨hd.1, fun h => hd.2 (h.untrim rfl)⟩
  conv =>
    rhs
    rw [hxt, List.append_assoc, substituteFrom_blank_append hn ha rfl, h, ← List.append_assoc]
  exact (trim_append ha hw' hout).symm

end Trimming

end ComputeKernel.Body
