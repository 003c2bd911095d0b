import ComputeKernel.Proofs.Places
import ComputeKernel.Body.Store

/-!
# Stores and passes

A text stores to an image where a pass wrote a store for an assignment, and nowhere else, unless the
text had a store in it from the start. This is shown by following four searches through all passes:

* a visible assignment to an image (`assignsHere`) stays one until the pass for that image;
* that pass makes a call of the store function of it (`storeCall`), which stays one;
* no pass makes any other call of the store function that could count for the image (`stray`);
* no pass moves a uniform marker behind an identifier (`markerJoins`), so that taking the markers
  out joins no words.

A pass moves what is found forward (`anywhere_pass`) or finds nothing new (`anywhere_of_pass`) if it
does so at one place.
-/

namespace ComputeKernel.Body

open Text

section Passes

variable {q q' : Option Char → List Char → Bool} {name : List Char} {max : Nat}
  {f : Subscript → List Char} {b : Option Char} {s : Subscript} {x y cs rest : List Char}

/-- What is found in what is made of a use is found where it starts, in the parts of the use, or in
what follows. -/
def Renders (q : Option Char → List Char → Bool) (max : Nat) (f : Subscript → List Char) : Prop :=
  ∀ b s y, s.Sits y → s.indices.length ≤ max →
    anywhere q b (f s ++ y) = (q b (f s ++ y) || (s.anyPart q || anywhere q none y))

theorem renders_image {d : Dialect} {readWrite : Bool} (hn : isIdentifier name = true)
    (hq : Finds q) (hc : Closes q) (hs : Spares d name q) :
    Renders q 2 (phraseImage d name readWrite) := fun _ _ _ hu hlen =>
  hq.phraseImage hs hn hu.indices hlen hu.op fun a ha =>
    (hu.value a ha).imp (fun h => h.1) fun h => ⟨h.1, hc⟩

theorem renders_buffer (hn : isIdentifier name = true) (hq : Finds q) (hm : SparesMember q) :
    Renders q 1 (phraseBuffer .glsl name) := fun _ _ _ hu hlen =>
  hq.phraseBuffer hm hn hu.indices hlen hu.op fun a ha => (hu.value a ha).imp_right And.left

/-- A use keeps its shape when a pass is carried out in its parts and in what follows it. -/
theorem Subscript.Sits.map (hf : Quiet name f) (h : s.Sits rest) :
    (s.map (substituteFrom name max f none)).Sits (substituteFrom name max f none rest) where
  indices := List.forall_mem_map.2 fun i hi =>
    level?_substituteFrom hf.name hf.level (h.indices i hi)
  op a' ha' := by
    obtain ⟨a, ha, rfl⟩ := Option.map_eq_some_iff.1 ha'
    exact h.op a ha
  value a' ha' := by
    obtain ⟨a, ha, rfl⟩ := Option.map_eq_some_iff.1 ha'
    rcases h.value a ha with ⟨hv, hstop⟩ | ⟨rfl, hv⟩
    · rcases rest with _ | ⟨k, rest⟩
      · cases hstop
      · have hk : isStop k = true := by simpa using hstop
        rw [substituteFrom_stop_cons hf.name hk]
        exact .inl ⟨level?_substituteFrom hf.name hf.level hv, by simpa using hk⟩
    · exact .inr ⟨substituteFrom_nil, hv.substituteFrom hf.name hf.level hf.unclosed⟩

theorem Subscript.anyPart_eq_true : s.anyPart q = true ↔
    (∃ i ∈ s.indices, anywhere q none i = true) ∨
      ∃ a ∈ s.assign, anywhere q none a.value = true := by
  rw [Subscript.anyPart, Bool.or_eq_true, List.any_eq_true, Option.any_eq_true]
  simp only [Option.mem_def]

theorem length_map_indices {g : List Char → List Char} (s : Subscript) :
    (s.map g).indices.length = s.indices.length := by
  simp [Subscript.map]

/-- A pass moves what is found forward if it does so at one place. -/
theorem anywhere_pass (hf : Quiet name f) (hq : Finds q) (hr : Renders q' max f)
    (hcopy : ∀ b c r, occurrence? name max b (c :: r) = none → q b (c :: r) = true →
      q' b (c :: substituteFrom name max f (some c) r) = true)
    (huse : ∀ b cs s rest, occurrence? name max b cs = some (s, rest) → q b cs = true →
      q' b (f (s.map (substituteFrom name max f none)) ++
        substituteFrom name max f none rest) = true)
    (h : anywhere q b x = true) : anywhere q' b (substituteFrom name max f b x) = true := by
  refine substituteFrom_induct (f := f) hf.name
    (P := fun b x y => anywhere q b x = true → anywhere q' b y = true) (fun _ h => h)
    (fun b c r ho ih h => ?_) (fun b cs s rest ho hi ha hrest h => ?_) b x h
  · rw [anywhere, Bool.or_eq_true] at h ⊢
    exact h.imp (hcopy b c r ho) ih
  · have hu := (occurrence?_isUse ho).2
    have hlen : (s.map (substituteFrom name max f none)).indices.length ≤ max := by
      rw [length_map_indices]
      exact occurrence?_indices ho
    rw [hq.use hf.name hu, Bool.or_eq_true, Bool.or_eq_true, Subscript.anyPart_eq_true] at h
    rw [hr b _ _ (hu.sits.map hf) hlen, Bool.or_eq_true, Bool.or_eq_true, Subscript.anyPart_eq_true]
    refine h.imp (huse b cs s rest ho) (Or.imp (Or.imp ?_ ?_) hrest)
    · rintro ⟨i, hm, h⟩
      exact ⟨_, List.mem_map_of_mem hm, hi i hm h⟩
    · rintro ⟨a, hm, h⟩
      exact ⟨_, Option.map_eq_some_iff.2 ⟨a, hm, rfl⟩, ha a hm h⟩

/-- A pass finds nothing new if it does not at one place. -/
theorem anywhere_of_pass (hf : Quiet name f) (hq : Finds q) (hr : Renders q' max f)
    (hcopy : ∀ b c r, occurrence? name max b (c :: r) = none →
      q' b (c :: substituteFrom name max f (some c) r) = true → q b (c :: r) = true)
    (huse : ∀ b cs s rest, occurrence? name max b cs = some (s, rest) →
      q' b (f (s.map (substituteFrom name max f none)) ++ substituteFrom name max f none rest) =
        true → q b cs = true)
    (h : anywhere q' b (substituteFrom name max f b x) = true) : anywhere q b x = true := by
  refine substituteFrom_induct (f := f) hf.name
    (P := fun b x y => anywhere q' b y = true → anywhere q b x = true) (fun _ h => h)
    (fun b c r ho ih h => ?_) (fun b cs s rest ho hi ha hrest h => ?_) b x h
  · rw [anywhere, Bool.or_eq_true] at h ⊢
    exact h.imp (hcopy b c r ho) ih
  · have hu := (occurrence?_isUse ho).2
    have hlen : (s.map (substituteFrom name max f none)).indices.length ≤ max := by
      rw [length_map_indices]
      exact occurrence?_indices ho
    rw [hr b _ _ (hu.sits.map hf) hlen, Bool.or_eq_true, Bool.or_eq_true,
      Subscript.anyPart_eq_true] at h
    rw [hq.use hf.name hu, Bool.or_eq_true, Bool.or_eq_true, Subscript.anyPart_eq_true]
    refine h.imp (huse b cs s rest ho) (Or.imp (Or.imp ?_ ?_) hrest)
    · rintro ⟨i', hm', h⟩
      obtain ⟨i, hm, rfl⟩ := List.mem_map.1 hm'
      exact ⟨i, hm, hi i hm h⟩
    · rintro ⟨a', hm', h⟩
      obtain ⟨a, hm, rfl⟩ := Option.map_eq_some_iff.1 hm'
      exact ⟨a, hm, ha a hm h⟩

end Passes

section Assignments

variable {n name : List Char} {max : Nat} {f : Subscript → List Char} {b : Option Char} {c : Char}
  {x z r cs rest : List Char} {s : Subscript}

/-- Whether a use of the image `n` that no word stands before is assigned to at a place. -/
def assignsHere (n : List Char) (b : Option Char) (cs : List Char) : Bool :=
  atWordStart b && usesWith n 2 (·.assign.isSome) b cs

theorem finds_assignsHere (hn : isIdentifier n = true) : Finds (assignsHere n) := by
  have h : Finds (usesWith n 2 (·.assign.isSome)) := finds_usesWith hn
  refine ⟨?_, ?_, ?_, ?_, ?_, ?_⟩
  · exact fun {b} => by rw [assignsHere, h.nil, Bool.and_false]
  · exact fun {b c r} hq => h.first (Bool.and_eq_true_iff.1 hq).2
  · exact fun {c e u y} hc hu he hd => by rw [assignsHere, h.inside hc hu he hd, Bool.and_false]
  · exact fun {c y} hc => by rw [assignsHere, assignsHere, h.near hc, atWordStart_of_apart hc]; rfl
  · exact fun {b l k x y} hx hk => by rw [assignsHere, h.stop hx hk]; rfl
  · exact fun {b w x} hw => by rw [assignsHere, h.blank hw]; rfl

theorem usesWith_assigned (hn : isIdentifier n = true) {m : Nat} :
    usesWith n m (·.assign.isSome) b x =
      (target? n m b x).any fun p => (assignSign? p.2).isSome := by
  rw [usesWith, occurrence?_eq_target? hn]
  rcases target? n m b x with _ | ⟨is, z⟩
  · rfl
  · rcases hs : assignSign? z with _ | p <;> simp [assignment?, hs]

theorem seam_closes (hz : ∀ c ∈ z, isClose c = true) : Seam z := by
  rcases z with _ | ⟨k, z⟩
  · exact seam_blank blank_nil
  · exact seam_stop (by simp [isStop, hz k List.mem_cons_self])

theorem assignSign?_bracket (h : trimStart x = '[' :: r) : assignSign? x = none := by
  rcases r with _ | ⟨d, r⟩
  · rw [assignSign?_single h]
    rfl
  · rw [assignSign?_cons_cons h]
    simp [show isOperator '[' = false from rfl]

/-- Brackets that close what is open at the end of a text make no sign follow any indices. -/
theorem indexGroups_append_closes (m : Nat) (hz : ∀ c ∈ z, isClose c = true) (x : List Char) :
    indexGroups m (x ++ z) = ((indexGroups m x).1, (indexGroups m x).2 ++ z) ∨
      assignSign? (indexGroups m (x ++ z)).2 = none ∧ assignSign? (indexGroups m x).2 = none := by
  have hgroups : ∀ (m : Nat) {z : List Char}, (∀ c ∈ z, isClose c = true) →
      indexGroups m z = ([], z) := by
    intro m z hz
    cases m with
    | zero => rfl
    | succ m =>
      rw [indexGroups]
      split
      · rename_i r hr
        exact absurd (by rw [hr]; rfl) (seam_closes hz).index
      · rfl
  induction m generalizing x with
  | zero => exact .inl rfl
  | succ m ih =>
    rw [indexGroups, indexGroups]
    rcases ht : trimStart x with _ | ⟨c, r⟩
    · rw [trimStart_append_of_nil ht]
      left
      split
      · rename_i r hr
        exact absurd (by rw [hr]; rfl) (seam_closes hz).index
      · rfl
    · rw [trimStart_append_of_cons ht]
      by_cases hc : c = '['
      · subst hc
        cases hs : splitClose 0 r with
        | some p =>
          obtain ⟨hl, k, hk, rfl⟩ := splitClose_level hs
          simp only [List.append_assoc, List.cons_append, splitClose_of_level hl hk]
          rcases ih p.2 with h | h
          · exact .inl (by rw [h])
          · exact .inr h
        | none =>
          cases hs' : splitClose 0 (r ++ z) with
          | none => exact .inl (by simp only [hs, hs'])
          | some p =>
            obtain ⟨hl, k, hk, he⟩ := splitClose_level hs'
            -- Nothing closes the index within the text, so what follows the index is part of `z`.
            have hrest : ∀ c ∈ p.2, isClose c = true := by
              rcases List.append_eq_append_iff.1 he with ⟨a, -, hza⟩ | ⟨a, hra, ha⟩
              · exact fun c hc => hz c (by simp [hza, hc])
              · rcases a with _ | ⟨k', a⟩
                · exact fun c hc => hz c (by rw [← List.nil_append z, ← ha]; simp [hc])
                · obtain ⟨rfl, -⟩ := List.cons.inj ha
                  have hopen := staysOpen_of_splitClose hs
                  rw [hra, StaysOpen, level?_stop hl (Nat.le_refl 0) (.inl hk)] at hopen
                  cases hopen
            right
            simp only [hs, hs', hgroups m hrest]
            exact ⟨(seam_closes hrest).sign, assignSign?_bracket ht⟩
      · left
        split
        · rename_i hr
          cases hr
          exact absurd rfl hc
        · split
          · rename_i hr
            cases hr
            exact absurd rfl hc
          · rfl

theorem closes_assignsHere (hn : isIdentifier n = true) : Closes (assignsHere n) := by
  intro b x z hz
  have hseam := seam_closes hz
  unfold assignsHere
  rw [usesWith_assigned hn, usesWith_assigned hn]
  congr 1
  unfold target?
  rw [after?_append (fun _ => ident_of_mem hn) hseam]
  rcases after? n x with _ | r
  · rfl
  have hh : (r ++ z).head?.any isIdent = r.head?.any isIdent := by
    cases r with
    | nil => exact hseam.ident
    | cons c r => rfl
  simp only [Option.map_some, hh]
  split
  · rfl
  rcases indexGroups_append_closes 2 hz r with hg | ⟨hout, hin⟩
  · rw [hg]
    split
    · rfl
    · simp only [Option.any_some, assignSign?_append hseam, Option.isSome_map]
  · split <;> split <;> simp [hout, hin]

/-- A visible assignment to an image stays one in a pass for another name, and none comes about. -/
theorem anywhere_assignsHere {d : Dialect} {readWrite : Bool} (hn : isIdentifier n = true)
    (hm : isIdentifier name = true) (hne : name ≠ n) :
    anywhere (assignsHere n) b (substituteFrom name 2 (phraseImage d name readWrite) b x) =
      anywhere (assignsHere n) b x := by
  have hf : Quiet name (phraseImage d name readWrite) := quiet_image hm
  have hs : Spares d name (assignsHere n) :=
    have h : Spares d name (usesWith n 2 (·.assign.isSome)) := spares_usesWith hn hm
    ⟨fun hu he => by rw [assignsHere, h.word hu he, Bool.and_false],
      fun {y} => by rw [assignsHere, h.name, Bool.and_false]⟩
  have hr : Renders (assignsHere n) 2 (phraseImage d name readWrite) :=
    renders_image hm (finds_assignsHere hn) (closes_assignsHere hn) hs
  have hcopy : ∀ b c r, occurrence? name 2 b (c :: r) = none →
      assignsHere n b (c :: substituteFrom name 2 (phraseImage d name readWrite) (some c) r) =
        assignsHere n b (c :: r) := by
    intro b c r ho
    unfold assignsHere
    rw [← substituteFrom_copy hm ho, usesWith_assigned hn, usesWith_assigned hn,
      target?_substituteFrom hf hn ho, Option.any_map]
    congr 2
    funext p
    simp only [assignSign?_substituteFrom_eq hf, Option.isSome_map]
  have hphrase : ∀ b s y, assignsHere n b (phraseImage d name readWrite s ++ y) = false := by
    intro b s y
    rw [phraseImage_eq, call, List.append_assoc, List.cons_append, assignsHere, usesWith,
      occurrence?_word hn (fun _ => ident_of_mem (isIdentifier_function s)) rfl
        (.inr ⟨rfl, by decide⟩)]
    simp
  have huse : ∀ b cs s rest, occurrence? name 2 b cs = some (s, rest) →
      assignsHere n b cs = false := by
    intro b cs s rest ho
    rw [assignsHere, usesWith, occurrence?_of_other hn hm hne (occurrence?_isUse ho).2]
    simp
  rw [Bool.eq_iff_iff]
  constructor
  · exact anywhere_of_pass hf (finds_assignsHere hn) hr (fun b c r ho h => hcopy b c r ho ▸ h)
      fun b cs s rest _ h => by rw [hphrase] at h; cases h
  · exact anywhere_pass hf (finds_assignsHere hn) hr (fun b c r ho h => (hcopy b c r ho).symm ▸ h)
      fun b cs s rest ho h => by rw [huse b cs s rest ho] at h; cases h

end Assignments

section Prefixes

variable {h u v w x y z r : List Char} {e e' c : Char} {b : Option Char} {name : List Char}
  {max : Nat} {f : Subscript → List Char}

theorem isPrefixOf_append (hz : ∀ c ∈ z.head?, c ∉ h) : h.isPrefixOf (x ++ z) = h.isPrefixOf x := by
  induction h generalizing x with
  | nil => rfl
  | cons d h ih =>
    cases x with
    | nil =>
      cases z with
      | nil => rfl
      | cons e z =>
        have hne : d ≠ e := fun he => hz e rfl (he ▸ List.mem_cons_self)
        simp [List.isPrefixOf, hne]
    | cons c x =>
      have hz' : ∀ c ∈ z.head?, c ∉ h := fun c hc hm => hz c hc (List.mem_cons_of_mem _ hm)
      rw [List.cons_append, List.isPrefixOf, List.isPrefixOf, ih hz']

/-- A text has one way to start with a word that something else follows. -/
theorem word_split (hu : ∀ c ∈ u, isIdent c = true) (hv : ∀ c ∈ v, isIdent c = true)
    (he : isIdent e = false) (he' : isIdent e' = false) (h : u ++ e :: x = v ++ e' :: y) :
    u = v ∧ e = e' ∧ x = y := by
  have hdrop := congrArg (List.dropWhile isIdent) h
  rw [List.dropWhile_append_of_pos hu, List.dropWhile_append_of_pos hv,
    List.dropWhile_cons_of_neg (by simp [he]), List.dropWhile_cons_of_neg (by simp [he'])] at hdrop
  cases hdrop
  exact ⟨List.append_cancel_right h, rfl, rfl⟩

/-- A pass leaves the rest of a word as it is. -/
theorem isPrefixOf_substituteFrom (hn : isIdentifier name = true) (hb : joinsName b = true)
    (hu : ∀ c ∈ u, joinsName (some c) = true) :
    u.isPrefixOf (substituteFrom name max f b x) = u.isPrefixOf x := by
  induction u generalizing b x with
  | nil => rfl
  | cons d u ih =>
    cases x with
    | nil => rw [substituteFrom_nil]
    | cons c x =>
      rw [substituteFrom_copy hn (occurrence?_of_joins hb), List.isPrefixOf, List.isPrefixOf]
      cases hdc : d == c with
      | false => rfl
      | true =>
        rw [beq_iff_eq] at hdc
        subst hdc
        rw [ih (hu d List.mem_cons_self) fun c hc => hu c (List.mem_cons_of_mem _ hc)]

theorem isPrefixOf_cons_substituteFrom (hn : isIdentifier name = true)
    (hu : ∀ c ∈ u, joinsName (some c) = true) :
    u.isPrefixOf (c :: substituteFrom name max f (some c) x) = u.isPrefixOf (c :: x) := by
  cases u with
  | nil => rfl
  | cons d u =>
    rw [List.isPrefixOf, List.isPrefixOf]
    cases hdc : d == c with
    | false => rfl
    | true =>
      rw [beq_iff_eq] at hdc
      subst hdc
      rw [isPrefixOf_substituteFrom hn (hu d List.mem_cons_self)
        fun c hc => hu c (List.mem_cons_of_mem _ hc)]

/-- A search for a text of words, brackets that open and commas. -/
structure Glimpses (q : Option Char → List Char → Bool) : Prop where
  nil {b : Option Char} : q b [] = false
  first {b : Option Char} {c : Char} {r : List Char} (h : q b (c :: r) = true) :
    isIdentStart c = true
  inside {c e : Char} {u y : List Char} (hc : isIdent c = true) (hu : ∀ x ∈ u, isIdent x = true)
    (he : isIdent e = false) (hd : e ≠ '.') : q (some c) (u ++ e :: y) = false
  near {c : Char} {y : List Char} (hc : isApart c = true) : q (some c) y = q none y
  ahead {b : Option Char} {e : Char} {x y : List Char} (he : isApart e = true) (hp : e ≠ '(')
    (hc : e ≠ ',') : q b (x ++ e :: y) = q b x

variable {q : Option Char → List Char → Bool}

theorem Glimpses.stop (hq : Glimpses q) (he : isStop e = true) : q b (x ++ e :: y) = q b x := by
  refine hq.ahead (isApart_of_stop he) ?_ ?_
  · rintro rfl
    cases he
  · rintro rfl
    cases he

theorem Glimpses.finds (hq : Glimpses q) : Finds q where
  nil := hq.nil
  first := hq.first
  inside := hq.inside
  near := hq.near
  stop _ hk := hq.stop hk
  blank {b w x} hw := by
    cases w with
    | nil => rw [List.append_nil]
    | cons c w =>
      have hc := hw c List.mem_cons_self
      refine hq.ahead (isApart_of_blank hc) ?_ ?_
      · rintro rfl
        cases hc
      · rintro rfl
        cases hc

theorem Glimpses.closes (hq : Glimpses q) : Closes q := by
  intro b x z hz
  cases z with
  | nil => rw [List.append_nil]
  | cons k z => exact hq.stop (by simp [isStop, hz k List.mem_cons_self])

/-- Lines are searched one by one. -/
theorem Glimpses.lines (hq : Glimpses q) :
    anywhere q b (x ++ '\n' :: y) = (anywhere q b x || anywhere q none y) := by
  induction x generalizing b with
  | nil => exact hq.finds.skip (by decide)
  | cons c x ih =>
    have hc : q b (c :: x ++ '\n' :: y) = q b (c :: x) :=
      hq.ahead (by decide) (by decide) (by decide)
    rw [List.cons_append] at hc ⊢
    rw [anywhere, anywhere, hc, ih, Bool.or_assoc]

end Prefixes

section Calls

variable {d : Dialect} {n k name : List Char} {ns : List (List Char)} {b : Option Char}
  {x y z cs rest : List Char} {s : Subscript} {max : Nat} {f : Subscript → List Char}

/-- A call of the store function with an image, up to the comma. -/
def storeHead (d : Dialect) (n : List Char) : List Char :=
  d.storeFunction.toList ++ '(' :: (n ++ [','])

/-- Whether a call that stores to `n` stands at a place, with no blank in it and no word before. -/
def storeCall (d : Dialect) (n : List Char) (b : Option Char) (cs : List Char) : Bool :=
  !joinsName b && atWordStart b && (storeHead d n).isPrefixOf cs

/-- Whether the name of the store function stands at a place and is not known to be harmless: a call
that stores to another of `ns` is, and so is a call that stores to `n` but is part of a word. -/
def stray (d : Dialect) (ns : List (List Char)) (n : List Char) (b : Option Char) (cs : List Char) :
    Bool :=
  !b.any isIdent && d.storeFunction.toList.isPrefixOf cs &&
    !ns.any fun k => (storeHead d k).isPrefixOf cs && !(k == n && atWordStart b)

theorem storeFunction_start : ∃ c u, d.storeFunction.toList = c :: u ∧ isIdentStart c = true := by
  cases d
  · exact ⟨'t', "extureStore".toList, rfl, rfl⟩
  · exact ⟨'i', "mageStore".toList, rfl, rfl⟩

theorem not_mem_storeFunction {e : Char} (he : isIdent e = false) :
    e ∉ d.storeFunction.toList := fun hm => by
  rw [isIdent_storeFunction e hm] at he
  cases he

theorem not_mem_storeHead {e : Char} (hk : isIdentifier k = true) (he : isIdent e = false)
    (hp : e ≠ '(') (hc : e ≠ ',') : e ∉ storeHead d k := fun hm => by
  simp only [storeHead, List.mem_append, List.mem_cons, List.not_mem_nil, or_false] at hm
  rcases hm with hm | hm | hm | hm
  · exact not_mem_storeFunction he hm
  · exact hp hm
  · rw [ident_of_mem hk hm] at he
    cases he
  · exact hc hm

theorem isPrefixOf_storeFunction (h : (storeHead d k).isPrefixOf x = true) :
    d.storeFunction.toList.isPrefixOf x = true := by
  rw [List.isPrefixOf_iff_prefix] at h ⊢
  exact (List.prefix_append _ _).trans h

theorem not_storeHead {u : List Char} {e : Char} (hu : ∀ c ∈ u, isIdent c = true)
    (he : isIdent e = false) (hp : e ≠ '(') : (storeHead d k).isPrefixOf (u ++ e :: y) = false := by
  cases h : (storeHead d k).isPrefixOf (u ++ e :: y) with
  | false => rfl
  | true =>
    obtain ⟨t, ht⟩ := List.isPrefixOf_iff_prefix.1 h
    rw [storeHead, List.append_assoc, List.cons_append] at ht
    exact absurd (word_split isIdent_storeFunction hu rfl he ht).2.1.symm hp

theorem first_of_storeFunction {c : Char} {r : List Char}
    (h : d.storeFunction.toList.isPrefixOf (c :: r) = true) : isIdentStart c = true := by
  obtain ⟨e, u, hs, he⟩ := storeFunction_start (d := d)
  rw [hs, List.isPrefixOf, Bool.and_eq_true, beq_iff_eq] at h
  exact h.1 ▸ he

theorem glimpses_storeCall (hn : isIdentifier n = true) : Glimpses (storeCall d n) where
  nil {b} := by
    obtain ⟨c, u, hs, -⟩ := storeFunction_start (d := d)
    simp [storeCall, storeHead, hs]
  first h := by
    rw [storeCall, Bool.and_eq_true] at h
    exact first_of_storeFunction (isPrefixOf_storeFunction h.2)
  inside hc _ _ _ := by simp [storeCall, joinsName_of_ident hc]
  near hc := by
    rw [storeCall, storeCall, joinsName_of_apart hc, atWordStart_of_apart hc]
    rfl
  ahead he hp hc := by
    rw [storeCall, storeCall, isPrefixOf_append]
    rintro c ⟨⟩
    exact not_mem_storeHead hn (isIdent_of_apart he) hp hc

theorem glimpses_stray (hns : ∀ k ∈ ns, isIdentifier k = true) : Glimpses (stray d ns n) where
  nil {b} := by
    obtain ⟨c, u, hs, -⟩ := storeFunction_start (d := d)
    simp [stray, hs]
  first h := by
    rw [stray, Bool.and_eq_true, Bool.and_eq_true] at h
    exact first_of_storeFunction h.1.2
  inside hc _ _ _ := by simp [stray, hc]
  near hc := by
    rw [stray, stray, atWordStart_of_apart hc, Option.any_some, isIdent_of_apart hc]
    rfl
  ahead {b e x y} he hp hc := by
    have hstore : d.storeFunction.toList.isPrefixOf (x ++ e :: y) =
        d.storeFunction.toList.isPrefixOf x := isPrefixOf_append (by
      rintro c ⟨⟩
      exact not_mem_storeFunction (isIdent_of_apart he))
    have hheads : (ns.any fun k => (storeHead d k).isPrefixOf (x ++ e :: y) &&
        !(k == n && atWordStart b)) = ns.any fun k => (storeHead d k).isPrefixOf x &&
          !(k == n && atWordStart b) := by
      rw [Bool.eq_iff_iff, List.any_eq_true, List.any_eq_true]
      refine exists_congr fun k => and_congr_right fun hk => ?_
      rw [isPrefixOf_append]
      rintro c ⟨⟩
      exact not_mem_storeHead (hns k hk) (isIdent_of_apart he) hp hc
    rw [stray, stray, hstore, hheads]

theorem not_storeFunction_word {u : List Char} {e : Char} (hu : u ∈ phraseWords d)
    (he : isIdent e = false) : d.storeFunction.toList.isPrefixOf (u ++ e :: y) = false := by
  rw [isPrefixOf_append (by rintro c ⟨⟩; exact not_mem_storeFunction he)]
  have h : ∀ u ∈ phraseWords d, d.storeFunction.toList.isPrefixOf u = false := by
    cases d <;> decide
  exact h u hu

theorem spares_storeCall (hm : isIdentifier name = true) : Spares d name (storeCall d n) where
  word {u y e} hu he := by
    have hi : isIdent e = false := (callMark_apart he).1
    cases h : (storeHead d n).isPrefixOf (u ++ e :: y) with
    | false => rw [storeCall, h, Bool.and_false]
    | true =>
      have hs := isPrefixOf_storeFunction h
      rw [not_storeFunction_word hu hi] at hs
      cases hs
  name {y} := by
    rw [storeCall, not_storeHead (fun _ => ident_of_mem hm) rfl (by decide), Bool.and_false]

theorem sparesMember_storeCall : SparesMember (storeCall d n) where
  inside hc _ := by simp [storeCall, joinsName_of_ident hc]
  data := rfl

theorem renders_storeCall_image {readWrite : Bool} (hn : isIdentifier n = true)
    (hm : isIdentifier name = true) :
    Renders (storeCall d n) 2 (phraseImage d name readWrite) :=
  renders_image hm (glimpses_storeCall hn).finds (glimpses_storeCall hn).closes
    (spares_storeCall hm)

/-- No use starts at the head of a call. -/
theorem substituteFrom_storeHead (hm : isIdentifier name = true) (hk : isIdentifier k = true) :
    substituteFrom name max f b (storeHead d k ++ z) =
      storeHead d k ++ substituteFrom name max f none z := by
  have h : substituteFrom name max f b (d.storeFunction.toList ++ '(' :: (k ++ ',' :: z)) =
      d.storeFunction.toList ++ '(' :: (k ++ ',' :: substituteFrom name max f none z) := by
    rw [substituteFrom_word hm isIdent_storeFunction rfl (.inr ⟨rfl, by decide⟩),
      substituteFrom_word hm (fun _ => ident_of_mem hk) rfl (.inr ⟨rfl, by decide⟩)]
  simpa [storeHead] using h

theorem storeHead_of_copy {c : Char} {r : List Char} (hm : isIdentifier name = true)
    (hk : isIdentifier k = true) (ho : occurrence? name max b (c :: r) = none)
    (h : (storeHead d k).isPrefixOf (c :: r) = true) :
    (storeHead d k).isPrefixOf (c :: substituteFrom name max f (some c) r) = true := by
  obtain ⟨z, hz⟩ := List.isPrefixOf_iff_prefix.1 h
  rw [← substituteFrom_copy hm ho, ← hz, substituteFrom_storeHead hm hk]
  exact List.isPrefixOf_iff_prefix.2 ⟨_, rfl⟩

theorem not_storeHead_of_use (hm : isIdentifier name = true) (hu : IsUse name s cs rest) :
    (storeHead d k).isPrefixOf cs = false := by
  obtain ⟨w, r, hw, rfl⟩ := hu.front
  rcases w with _ | ⟨e, w⟩
  · exact not_storeHead (fun _ => ident_of_mem hm) rfl (by decide)
  · have he := isApart_of_blank (hw e List.mem_cons_self)
    refine not_storeHead (fun _ => ident_of_mem hm) (isIdent_of_apart he) ?_
    rintro rfl
    exact absurd (hw _ List.mem_cons_self) (by decide)

/-- A call that stores to an image stays one in every pass. -/
theorem anywhere_storeCall (hn : isIdentifier n = true) (hf : Quiet name f)
    (hr : Renders (storeCall d n) max f) (h : anywhere (storeCall d n) b x = true) :
    anywhere (storeCall d n) b (substituteFrom name max f b x) = true := by
  refine anywhere_pass hf (glimpses_storeCall hn).finds hr (fun b c r ho h => ?_)
    (fun b cs s rest ho h => ?_) h
  · rw [storeCall, Bool.and_eq_true] at h ⊢
    exact ⟨h.1, storeHead_of_copy hf.name hn ho h.2⟩
  · rw [storeCall, not_storeHead_of_use hf.name (occurrence?_isUse ho).2, Bool.and_false] at h
    cases h

theorem storeHead_phraseImage {readWrite : Bool} (h : s.assign ≠ none) :
    (storeHead d name).isPrefixOf (phraseImage d name readWrite s ++ y) = true := by
  refine List.isPrefixOf_iff_prefix.2 ⟨' ' :: ((imageCoords s.indices).text d ++
    imageRest d name readWrite s ++ [')']) ++ y, ?_⟩
  rw [phraseImage_eq, if_neg h, call]
  simp [storeHead]

/-- The pass for an image makes such a call of each visible assignment. -/
theorem anywhere_storeCall_of_assignsHere {readWrite : Bool} (hn : isIdentifier n = true)
    (h : anywhere (assignsHere n) b x = true) : anywhere (storeCall d n) b
      (substituteFrom n 2 (phraseImage d n readWrite) b x) = true := by
  refine anywhere_pass (quiet_image hn) (finds_assignsHere hn) (renders_storeCall_image hn hn)
    (fun b c r ho h => ?_) (fun b cs s rest ho h => ?_) h
  · rw [assignsHere, usesWith, ho, Option.any_none, Bool.and_false] at h
    cases h
  · rw [assignsHere, usesWith, ho, Option.any_some, Bool.and_eq_true] at h
    have hs : (s.map (substituteFrom n 2 (phraseImage d n readWrite) none)).assign ≠ none := by
      rw [Subscript.map, Ne, Option.map_eq_none_iff]
      exact Option.isSome_iff_ne_none.1 h.2
    rw [storeCall, (occurrence?_isUse ho).1, h.1, storeHead_phraseImage hs]
    rfl

end Calls

section Strays

variable {d : Dialect} {n name : List Char} {ns : List (List Char)} {b : Option Char} {c : Char}
  {x y r cs rest : List Char} {s : Subscript} {max : Nat} {f : Subscript → List Char}
  {q : Option Char → List Char → Bool}

theorem isIdent_of_not_joins (h : joinsName b = false) : b.any isIdent = false := by
  cases b with
  | none => rfl
  | some c =>
    simp only [joinsName, Option.any_some, Bool.or_eq_false_iff] at h
    exact h.1

theorem joinsName_of_mem_store : ∀ c ∈ d.storeFunction.toList, joinsName (some c) = true :=
  fun c hc => joinsName_of_ident (isIdent_storeFunction c hc)

theorem stray_of_copy (hns : ∀ k ∈ ns, isIdentifier k = true) (hm : isIdentifier name = true)
    (ho : occurrence? name max b (c :: r) = none)
    (h : stray d ns n b (c :: substituteFrom name max f (some c) r) = true) :
    stray d ns n b (c :: r) = true := by
  simp only [stray, Bool.and_eq_true, Bool.not_eq_true', List.any_eq_false] at h ⊢
  rw [isPrefixOf_cons_substituteFrom hm joinsName_of_mem_store] at h
  refine ⟨h.1, fun k hk hharmless => h.2 k hk ?_⟩
  exact ⟨storeHead_of_copy hm (hns k hk) ho hharmless.1, hharmless.2⟩

theorem stray_of_use (hm : isIdentifier name = true)
    (hname : d.storeFunction.toList.isPrefixOf name = true)
    (ho : occurrence? name max b cs = some (s, rest)) : stray d ns n b cs = true := by
  obtain ⟨hj, hu⟩ := occurrence?_isUse ho
  simp only [stray, Bool.and_eq_true, Bool.not_eq_true', List.any_eq_false]
  refine ⟨⟨isIdent_of_not_joins hj, ?_⟩, fun k _ => by
    simp [not_storeHead_of_use (d := d) (k := k) hm hu]⟩
  obtain ⟨w, r, -, rfl⟩ := hu.front
  rw [List.isPrefixOf_iff_prefix] at hname ⊢
  exact hname.trans (List.prefix_append _ _)

/-- A pass makes no stray call but those of visible assignments to `n`. -/
theorem anywhere_stray (hns : ∀ k ∈ ns, isIdentifier k = true) (hf : Quiet name f) (hq : Finds q)
    (hsub : ∀ b cs, stray d ns n b cs = true → q b cs = true)
    (hr : d.storeFunction.toList.isPrefixOf name = false → Renders (stray d ns n) max f)
    (hfront : ∀ b cs s rest, d.storeFunction.toList.isPrefixOf name = false →
      occurrence? name max b cs = some (s, rest) →
      stray d ns n b (f (s.map (substituteFrom name max f none)) ++
        substituteFrom name max f none rest) = true → q b cs = true)
    (h : anywhere (stray d ns n) b (substituteFrom name max f b x) = true) :
    anywhere q b x = true := by
  cases hname : d.storeFunction.toList.isPrefixOf name with
  | false =>
    exact anywhere_of_pass hf hq (hr hname)
      (fun b c r ho h => hsub b _ (stray_of_copy hns hf.name ho h))
      (fun b cs s rest ho => hfront b cs s rest hname ho) h
  | true =>
    -- The first use of such a name is stray itself, and without a use nothing changes.
    refine substituteFrom_induct (f := f) hf.name
      (P := fun b x y => anywhere (stray d ns n) b y = true → anywhere q b x = true)
      (fun _ h => h) (fun b c r ho ih h => ?_) (fun b cs s rest ho _ _ _ _ => ?_) b x h
    · rw [anywhere, Bool.or_eq_true] at h ⊢
      exact h.imp (fun h => hsub b _ (stray_of_copy hns hf.name ho h)) ih
    · cases cs with
      | nil =>
        have := (occurrence?_shorter ho).1
        simp at this
      | cons c r => rw [anywhere, hsub b _ (stray_of_use hf.name hname ho), Bool.true_or]

theorem spares_stray (hname : d.storeFunction.toList.isPrefixOf name = false) :
    Spares d name (stray d ns n) where
  word {u y e} hu he := by
    have hi : isIdent e = false := (callMark_apart he).1
    rw [stray, not_storeFunction_word hu hi, Bool.and_false, Bool.false_and]
  name {y} := by
    rw [stray, isPrefixOf_append (by rintro c ⟨⟩; exact not_mem_storeFunction rfl), hname,
      Bool.and_false, Bool.false_and]

theorem sparesMember_stray : SparesMember (stray d ns n) where
  inside hc _ := by simp [stray, hc]
  data {y} := by cases d <;> rfl

/-- What is stray at the phrase for an image is a store to `n` for a visible assignment. -/
theorem stray_phraseImage {readWrite : Bool} (hmem : name ∈ ns)
    (h : stray d ns n b (phraseImage d name readWrite s ++ y) = true) :
    s.assign ≠ none ∧ name = n ∧ atWordStart b = true := by
  simp only [stray, Bool.and_eq_true, Bool.not_eq_true', List.any_eq_false] at h
  obtain ⟨⟨-, hstore⟩, hheads⟩ := h
  rw [phraseImage_eq, call, List.append_assoc, List.cons_append] at hstore
  have hassign : s.assign ≠ none := fun hn => by
    rw [if_pos hn, not_storeFunction_word loadWord_mem rfl] at hstore
    cases hstore
  have hharm := hheads name hmem
  simp only [storeHead_phraseImage hassign, true_and, Bool.not_eq_false, Bool.and_eq_true,
    beq_iff_eq] at hharm
  exact ⟨hassign, hharm⟩

/-- The pass for another image makes no stray call. -/
theorem anywhere_stray_image {readWrite : Bool} (hns : ∀ k ∈ ns, isIdentifier k = true)
    (hmem : name ∈ ns) (hne : name ≠ n)
    (h : anywhere (stray d ns n) b
      (substituteFrom name 2 (phraseImage d name readWrite) b x) = true) :
    anywhere (stray d ns n) b x = true := by
  have hm := hns name hmem
  have hg := glimpses_stray (d := d) (n := n) hns
  exact anywhere_stray hns (quiet_image hm) hg.finds (fun _ _ => id)
    (fun hname => renders_image hm hg.finds hg.closes (spares_stray hname))
    (fun b cs s rest _ _ h => absurd (stray_phraseImage hmem h).2.1 hne) h

/-- Nor does the pass for a buffer. -/
theorem anywhere_stray_buffer (hns : ∀ k ∈ ns, isIdentifier k = true)
    (hm : isIdentifier name = true) (h : anywhere (stray .glsl ns n) b
      (substituteFrom name 1 (phraseBuffer .glsl name) b x) = true) :
    anywhere (stray .glsl ns n) b x = true := by
  have hg := glimpses_stray (d := .glsl) (n := n) hns
  refine anywhere_stray hns (quiet_buffer hm) hg.finds (fun _ _ => id)
    (fun _ => renders_buffer hm hg.finds sparesMember_stray) (fun b cs s rest hname ho h => ?_) h
  rw [phraseBuffer_eq, List.append_assoc, List.cons_append, stray,
    isPrefixOf_append (by rintro c ⟨⟩; exact not_mem_storeFunction rfl), hname, Bool.and_false,
    Bool.false_and] at h
  cases h

/-- The pass for the image itself makes stray calls of visible assignments only. -/
theorem anywhere_stray_own {readWrite : Bool} (hns : ∀ k ∈ ns, isIdentifier k = true)
    (hmem : n ∈ ns) (h : anywhere (stray d ns n) b
      (substituteFrom n 2 (phraseImage d n readWrite) b x) = true) :
    anywhere (stray d ns n) b x = true ∨ anywhere (assignsHere n) b x = true := by
  have hm := hns n hmem
  have hg := glimpses_stray (d := d) (n := n) hns
  have hor : ∀ {b x}, anywhere (fun b cs => stray d ns n b cs || assignsHere n b cs) b x =
      (anywhere (stray d ns n) b x || anywhere (assignsHere n) b x) := by
    intro b x
    induction x generalizing b with
    | nil => rfl
    | cons c x ih =>
      rw [anywhere, anywhere, anywhere, ih]
      simp [Bool.or_assoc, Bool.or_left_comm]
  rw [← Bool.or_eq_true, ← hor]
  refine anywhere_stray hns (quiet_image hm) (hg.finds.or (finds_assignsHere hm))
    (fun _ _ h => by rw [h, Bool.true_or])
    (fun hname => renders_image hm hg.finds hg.closes (spares_stray hname))
    (fun b cs s rest _ ho h => ?_) h
  obtain ⟨hassign, -, hb⟩ := stray_phraseImage hmem h
  have hs : s.assign.isSome = true := by
    rw [Subscript.map, Ne, Option.map_eq_none_iff] at hassign
    exact Option.isSome_iff_ne_none.2 hassign
  simp [assignsHere, usesWith, ho, hs, hb]

end Strays

end ComputeKernel.Body
