import ComputeKernel.Proofs.Places
import ComputeKernel.Proofs.Translation

/-!
# Exchange of passes

Two passes for different names may change places (`substituteFrom_comm`). Where a use of one name
starts, the other pass is carried out in the parts of the use before the phrase is made, or in the
parts of the phrase afterwards, and by induction these are the same. Both readings agree because a
use is read from the result of a pass as from the text (`occurrence?_substituteFrom`), and because a
pass for another name moves through a phrase (`Moves`). The one thing that could come between is an
assignment of nothing to a buffer, whose value would be made of the blanks that another pass trims;
no pass brings one about (`anywhere_empties`). So the uses of all parameters are phrased in the same
way in whatever order the parameters are listed (`phraseUses_perm`).

As everywhere, a pass counts levels without a bound, and is the pass of a counter of 32 bits on a
text of fewer than `2 ^ 31` characters (`ByOffset.substitute?_of_lt`).
-/

namespace ComputeKernel.Body

open Text

section Rules

/-- Whether a use assigns nothing. -/
def Subscript.assignsNothing (s : Subscript) : Bool := s.assign.any (·.value.isEmpty)

/-- Whether a use of `n` with one index assigns nothing at a place. -/
def empties (n : List Char) : Option Char → List Char → Bool :=
  usesWith n 1 Subscript.assignsNothing

theorem assignsNothing_eq {n : List Char} {b : Option Char} {x : List Char} :
    assignsNothing n 1 b x = anywhere (empties n) b x := by
  induction x generalizing b with
  | nil => rfl
  | cons c x ih =>
    rw [assignsNothing, anywhere, ih]
    rfl

theorem finds_empties {n : List Char} (hn : isIdentifier n = true) : Finds (empties n) :=
  finds_usesWith hn

/-- A pass for a name as there is one for each parameter. -/
structure Rule (name : List Char) (max : Nat) (f : Subscript → List Char) : Prop
    extends Quiet name f where
  value : EndsWithValue f
  ends : KeepsEnds f
  tight : EndsTight f ∨ max = 1

theorem rule_image {name : List Char} (hn : isIdentifier name = true) {d : Dialect}
    {readWrite : Bool} : Rule name 2 (phraseImage d name readWrite) :=
  ⟨quiet_image hn, (phrasing_image hn).value, (phrasing_image hn).ends, .inl endsTight_image⟩

theorem rule_buffer {name : List Char} (hn : isIdentifier name = true) :
    Rule name 1 (phraseBuffer .glsl name) :=
  ⟨quiet_buffer hn, (phrasing_buffer hn).value, (phrasing_buffer hn).ends, .inr rfl⟩

/-- A text in which a pass may be exchanged with trimming, wherever it is trimmed. -/
def Tidy (name : List Char) (f : Subscript → List Char) (b : Option Char) (x : List Char) : Prop :=
  EndsTight f ∨ anywhere (empties name) b x = false

variable {name : List Char} {max : Nat} {f : Subscript → List Char} {b : Option Char} {l : Nat}
  {c : Char} {s : Subscript} {x cs r rest : List Char}

theorem Tidy.tail (h : Tidy name f b (c :: r)) : Tidy name f (some c) r :=
  h.imp_right fun h => by
    rw [anywhere, Bool.or_eq_false_iff] at h
    exact h.2

/-- A text is tidy only if the parts of a use in front of it are. -/
theorem Tidy.parts {n : List Char} (hn : isIdentifier name = true) (hm : isIdentifier n = true)
    (hu : IsUse n s cs rest) (h : Tidy name f b cs) :
    (∀ i ∈ s.indices, Tidy name f none i) ∧ (∀ a ∈ s.assign, Tidy name f none a.value) ∧
      Tidy name f none rest := by
  rcases h with h | h
  · exact ⟨fun _ _ => .inl h, fun _ _ => .inl h, .inl h⟩
  rw [(finds_empties hn).use hm hu] at h
  simp only [Bool.or_eq_false_iff, Subscript.anyPart, List.any_eq_false, Option.any_eq_false] at h
  exact ⟨fun i hi => .inr (by simpa using h.2.1.1 i hi),
    fun a ha => .inr (by simpa using h.2.1.2 a ha), .inr h.2.2⟩

theorem Tidy.not_dangles (hf : Rule name max f) (h : Tidy name f none x) :
    EndsTight f ∨ max = 1 ∧ ¬ Dangles name none x := by
  rcases h with h | h
  · exact .inl h
  · refine hf.tight.imp_right fun hm => ⟨hm, fun hd => ?_⟩
    have := hd.assignsNothing hf.name
    rw [assignsNothing_eq, h] at this
    cases this

end Rules

section Reading

variable {name n : List Char} {max m : Nat} {f : Subscript → List Char} {b : Option Char}
  {c : Char} {l : Nat} {x r : List Char}

theorem target?_eq {is : List (List Char)} {z : List Char} (h : target? n m b x = some (is, z)) :
    joinsName b = false ∧ is ≠ [] ∧ ∃ g, Indices is g ∧ x = n ++ (g ++ z) := by
  unfold target? at h
  split at h
  · cases h
  rename_i r hr
  obtain rfl := after?_eq_some hr
  split at h
  · cases h
  rename_i hj
  rw [Bool.or_eq_true, not_or, Bool.not_eq_true, Bool.not_eq_true] at hj
  split at h
  · cases h
  rename_i hne
  have hg := Option.some.inj h
  obtain ⟨g, hi, rfl⟩ := indexGroups_eq hg
  exact ⟨hj.1, by rwa [hg] at hne, g, hi, rfl⟩

/-- An assignment is read from the result of a pass with the pass carried out in its value. -/
theorem assignment?_substituteFrom (hf : Rule name max f) (hx : level? false l x = some 0)
    (ht : Tidy name f none x) : assignment? (substituteFrom name max f none x) =
      (assignment? x).map fun p => (⟨p.1.op, substituteFrom name max f none p.1.value⟩,
        substituteFrom name max f none p.2) := by
  unfold assignment?
  rw [assignSign?_substituteFrom_eq hf.toQuiet]
  rcases hs : assignSign? x with _ | ⟨op, r⟩
  · rfl
  have hr : level? false l r = some 0 := level?_after_sign hx hs
  have htr : Tidy name f none r := ht.imp_right fun h => by
    obtain ⟨w, sign, hw, hsign, rfl⟩ := assignSign?_eq hs
    rwa [(finds_empties hf.name).skip_blank hw, (finds_empties hf.name).skip_all hsign.isApart] at h
  -- The value goes on to the end or to a character that stops it, and is balanced in both cases.
  have hsplit : ∃ v rest, r = v ++ rest ∧ IsValue v ∧ Tidy name f none v ∧
      splitValue 0 r = (v, rest) ∧ splitValue 0 (substituteFrom name max f none r) =
        (substituteFrom name max f none v, substituteFrom name max f none rest) := by
    obtain ⟨m, hm, hend⟩ := splitValue_level 0 r
    have hr' := splitValue_append 0 r
    rcases hend with hnil | ⟨rfl, k, rest, hrest, hk⟩
    · rw [hnil, List.append_nil] at hr'
      rw [hr'] at hm
      have hml : level? false l r = some (m + l) := by
        simpa using level?_add (n := l) hm fun _ => .inl rfl
      obtain rfl : m = 0 := by
        have : m + l = 0 := Option.some.inj (hml.symm.trans hr)
        omega
      refine ⟨r, [], by simp, hm, htr, splitValue_of_level_end hm, ?_⟩
      rw [substituteFrom_nil]
      exact splitValue_of_level_end (level?_substituteFrom hf.name hf.level hm)
    · rw [hrest] at hr'
      refine ⟨_, k :: rest, hr'.symm, hm, htr.imp_right fun h => ?_, by rw [← hrest], ?_⟩
      · rw [← hr', (finds_empties hf.name).append_stop (IsValue.balanced hm) hk,
          Bool.or_eq_false_iff] at h
        exact h.1
      · rw [← hr', substituteFrom_stop hf.name (IsValue.balanced hm) hk,
          substituteFrom_stop_cons hf.name hk, hr']
        exact splitValue_of_level (level?_substituteFrom hf.name hf.level hm) hk
  obtain ⟨v, rest, rfl, hv, htv, hin, hout⟩ := hsplit
  simp only [Option.map_some, hin, hout]
  rw [trim_substituteFrom hf.name hf.start hf.value hv.balanced (htv.not_dangles hf)]

/-- Where no use of its own name starts, a pass is carried out in the parts of a use. -/
theorem occurrence?_substituteFrom (hf : Rule name max f) (hm : isIdentifier n = true)
    (hx : level? false l (c :: r) = some 0) (ht : Tidy name f b (c :: r))
    (ho : occurrence? name max b (c :: r) = none) :
    occurrence? n m b (substituteFrom name max f b (c :: r)) =
      (occurrence? n m b (c :: r)).map fun p => (p.1.map (substituteFrom name max f none),
        substituteFrom name max f none p.2) := by
  rw [occurrence?_eq_target? hm, occurrence?_eq_target? hm, target?_substituteFrom hf.toQuiet hm ho]
  rcases hg : target? n m b (c :: r) with _ | ⟨is, z⟩
  · rfl
  obtain ⟨-, hne, g, hi, hcr⟩ := target?_eq hg
  have hz : level? false l z = some 0 := by
    rwa [hcr, level?_append, level?_name hm, Option.bind_some, level?_append, hi.level,
      Option.bind_some] at hx
  have htz : Tidy name f none z := ht.imp_right fun h => by
    rw [hcr, (finds_empties hf.name).after_name hm hi hne] at h
    simp only [Bool.or_eq_false_iff] at h
    exact h.2.2
  simp only [Option.map_some, assignment?_substituteFrom hf hz htz]
  rcases assignment? z with _ | ⟨a, rest⟩ <;> rfl

end Reading

section Commutation

variable {a c : List Char} {m n : Nat} {f g : Subscript → List Char} {b : Option Char} {l : Nat}
  {s : Subscript} {x cs r rest y : List Char}

theorem Subscript.map_map {h k : List Char → List Char} (s : Subscript) :
    (s.map h).map k = s.map (k ∘ h) := by
  rcases s with ⟨is, _ | v⟩ <;> simp [Subscript.map]

theorem Subscript.map_congr {h k : List Char → List Char} (hi : ∀ i ∈ s.indices, h i = k i)
    (ha : ∀ v ∈ s.assign, h v.value = k v.value) : s.map h = s.map k := by
  rcases s with ⟨is, _ | v⟩
  · simpa [Subscript.map] using hi
  · simpa [Subscript.map] using ⟨hi, ha v rfl⟩

/-- A pass `h` moves through the phrases `f` for another name, where it may be exchanged with
trimming an index. -/
def Moves (m : Nat) (f : Subscript → List Char) (h : List Char → List Char) : Prop :=
  ∀ s y, s.WellFormed → s.indices.length ≤ m →
    (∀ v ∈ s.assign, y = [] ∨ y.head?.any isStop = true) →
    (∀ i ∈ s.indices, h (trim i) = trim (h i)) → h (f s ++ y) = f (s.map h) ++ h y

/-- What follows an assignment still does so after a pass. -/
theorem IsUse.ends_assignment (hn : isIdentifier a = true) (hu : IsUse c s cs rest) :
    ∀ v ∈ s.assign, substituteFrom a m f none rest = [] ∨
      (substituteFrom a m f none rest).head?.any isStop = true := by
  intro v hv
  rcases hu.sits.value v hv with ⟨-, hstop⟩ | ⟨rfl, -⟩
  · rcases rest with _ | ⟨k, rest⟩
    · cases hstop
    · have hk : isStop k = true := by simpa using hstop
      rw [substituteFrom_stop_cons hn hk]
      exact .inr (by simpa using hk)
  · exact .inl substituteFrom_nil

/-- Two passes may change places at a use of the first name if they may in its parts. -/
theorem substituteFrom_comm_use (hf : Rule a m f) (hg : Rule c n g) (hne : a ≠ c)
    (hm : Moves m f (substituteFrom c n g none)) (hx : level? false l x = some 0)
    (hc : Tidy c g b x) (ho : occurrence? a m b x = some (s, rest))
    (hi : ∀ i ∈ s.indices, substituteFrom a m f none (substituteFrom c n g none i) =
      substituteFrom c n g none (substituteFrom a m f none i))
    (ha : ∀ v ∈ s.assign, substituteFrom a m f none (substituteFrom c n g none v.value) =
      substituteFrom c n g none (substituteFrom a m f none v.value))
    (hr : substituteFrom a m f none (substituteFrom c n g none rest) =
      substituteFrom c n g none (substituteFrom a m f none rest)) :
    substituteFrom a m f b (substituteFrom c n g b x) =
      substituteFrom c n g b (substituteFrom a m f b x) := by
  obtain ⟨hj, hu⟩ := occurrence?_isUse ho
  obtain ⟨hci, -, -⟩ := hc.parts hg.name hf.name hu
  obtain ⟨hw, -⟩ := hu.level hf.name hx
  have hoc : occurrence? c n b x = none := occurrence?_of_other hg.name hf.name hne hu
  have hread : occurrence? a m b (substituteFrom c n g b x) =
      some (s.map (substituteFrom c n g none), substituteFrom c n g none rest) := by
    cases x with
    | nil =>
      obtain ⟨e, u, rfl, -⟩ := identifier_cons hf.name
      cases ho
    | cons e x =>
      rw [occurrence?_substituteFrom hg hf.name hx hc hoc, ho]
      rfl
  have hw' : (s.map (substituteFrom a m f none)).WellFormed :=
    hw.map (fun i hm => level?_substituteFrom hf.name hf.level (hw.indices i hm))
      fun v hv => level?_substituteFrom hf.name hf.level (hw.value v hv)
  have htrim : ∀ i ∈ (s.map (substituteFrom a m f none)).indices,
      substituteFrom c n g none (trim i) = trim (substituteFrom c n g none i) := by
    refine List.forall_mem_map.2 fun i hmem => ?_
    have hbal : Balanced (substituteFrom a m f none i) :=
      level?_substituteFrom hf.name hf.level (hw.indices i hmem)
    refine trim_substituteFrom hg.name hg.start hg.value hbal ?_
    exact ((hci i hmem).not_dangles hg).imp_right fun hd => ⟨hd.1, fun h => hd.2
      (h.of_substituteFrom hf.name hg.name hf.start hf.level hf.ends (hw.indices i hmem))⟩
  have hend : ∀ v ∈ (s.map (substituteFrom a m f none)).assign,
      substituteFrom a m f none rest = [] ∨
        (substituteFrom a m f none rest).head?.any isStop = true := by
    intro v' hv'
    obtain ⟨v, hv, rfl⟩ := Option.map_eq_some_iff.1 hv'
    exact hu.ends_assignment hf.name v hv
  have hlen : (s.map (substituteFrom a m f none)).indices.length ≤ m := by
    simpa [Subscript.map] using occurrence?_indices ho
  rw [substituteFrom_use hf.name hread, substituteFrom_use hf.name ho,
    substituteFrom_congr hg.name (show joinsName b = joinsName none from hj),
    hm _ _ hw' hlen hend htrim, hr, s.map_map, s.map_map]
  exact congrArg (f · ++ _) (Subscript.map_congr hi ha)

/-- Passes for different names may change places. -/
theorem substituteFrom_comm (hf : Rule a m f) (hg : Rule c n g) (hne : a ≠ c)
    (hfg : Moves m f (substituteFrom c n g none)) (hgf : Moves n g (substituteFrom a m f none))
    (hx : level? false l x = some 0) (ha : Tidy a f b x) (hc : Tidy c g b x) :
    substituteFrom a m f b (substituteFrom c n g b x) =
      substituteFrom c n g b (substituteFrom a m f b x) := by
  induction hl : x.length using Nat.strongRecOn generalizing b l x with
  | _ k ih =>
    -- The parts of a use of either name are shorter than the text.
    have parts : ∀ {n' : List Char} {m' : Nat} {s : Subscript} {rest : List Char},
        isIdentifier n' = true → occurrence? n' m' b x = some (s, rest) →
        (∀ i ∈ s.indices, substituteFrom a m f none (substituteFrom c n g none i) =
          substituteFrom c n g none (substituteFrom a m f none i)) ∧
        (∀ v ∈ s.assign, substituteFrom a m f none (substituteFrom c n g none v.value) =
          substituteFrom c n g none (substituteFrom a m f none v.value)) ∧
        substituteFrom a m f none (substituteFrom c n g none rest) =
          substituteFrom c n g none (substituteFrom a m f none rest) := by
      intro n' m' s rest hn' ho
      have hu := (occurrence?_isUse ho).2
      obtain ⟨hrest, hi, hv⟩ := occurrence?_shorter ho
      obtain ⟨hai, hav, har⟩ := ha.parts hf.name hn' hu
      obtain ⟨hci, hcv, hcr⟩ := hc.parts hg.name hn' hu
      obtain ⟨hw, hlr⟩ := hu.level hn' hx
      exact ⟨fun i hmem => ih _ (hl ▸ hi i hmem) (hw.indices i hmem) (hai i hmem) (hci i hmem) rfl,
        fun v hmem =>
          ih _ (hl ▸ hv v hmem) (hw.value v hmem).balanced (hav v hmem) (hcv v hmem) rfl,
        ih _ (hl ▸ hrest) hlr har hcr rfl⟩
    cases x with
    | nil => rw [substituteFrom_nil, substituteFrom_nil, substituteFrom_nil]
    | cons e r =>
      rcases hoa : occurrence? a m b (e :: r) with _ | ⟨s, rest⟩
      · rcases hoc : occurrence? c n b (e :: r) with _ | ⟨s, rest⟩
        · have hca : occurrence? a m b (substituteFrom c n g b (e :: r)) = none := by
            rw [occurrence?_substituteFrom hg hf.name hx hc hoc, hoa]
            rfl
          have hac : occurrence? c n b (substituteFrom a m f b (e :: r)) = none := by
            rw [occurrence?_substituteFrom hf hg.name hx ha hoa, hoc]
            rfl
          rw [substituteFrom_copy hg.name hoc] at hca ⊢
          rw [substituteFrom_copy hf.name hoa] at hac ⊢
          rw [substituteFrom_copy hf.name hca, substituteFrom_copy hg.name hac]
          rw [level?_cons] at hx
          obtain ⟨l', -, hr⟩ := Option.bind_eq_some_iff.1 hx
          exact congrArg _ (ih r.length (by simp [← hl]) hr ha.tail hc.tail rfl)
        · obtain ⟨hi, hv, hr⟩ := parts hg.name hoc
          exact (substituteFrom_comm_use hg hf (Ne.symm hne) hgf hx ha hoc
            (fun i hm => (hi i hm).symm) (fun v hm => (hv v hm).symm) hr.symm).symm
      · obtain ⟨hi, hv, hr⟩ := parts hf.name hoa
        exact substituteFrom_comm_use hf hg hne hfg hx hc hoa hi hv hr

end Commutation

section Moving

variable {a c : List Char} {n : Nat} {g : Subscript → List Char} {d : Dialect} {readWrite : Bool}
  {y : List Char}

/-- A pass for another name goes through the phrase for an image. -/
theorem moves_image (ha : isIdentifier a = true) (hc : isIdentifier c = true) (hne : a ≠ c)
    (hg : Phrasing g) (ht : EndsTight g) :
    Moves 2 (phraseImage d a readWrite) (substituteFrom c n g none) := by
  intro s y hs hlen _ _
  have hfor : Foreign a [] (substitute c n g) :=
    foreign_substitute hc ha (by simp) hg (.inl ht) hne
  exact hfor.phraseImage ha hs (by simp) hlen

theorem substituteFrom_member (ha : isIdentifier a = true) (hc : isIdentifier c = true) :
    substituteFrom c n g none (a ++ '.' :: ("data".toList ++ '[' :: y)) =
      a ++ '.' :: ("data".toList ++ '[' :: substituteFrom c n g none y) := by
  have hword : occurrence? c n none (a ++ '.' :: ("data".toList ++ '[' :: y)) = none :=
    occurrence?_word hc (fun _ => ident_of_mem ha) rfl (.inr ⟨rfl, by decide⟩)
  have hdata : ∀ b, substituteFrom c n g b ('.' :: ("data".toList ++ '[' :: y)) =
      '.' :: ("data".toList ++ '[' :: substituteFrom c n g none y) := fun b => by
    rw [substituteFrom_cons hc rfl, substituteFrom_joined hc (List.all_eq_true.1 (by decide)) rfl,
      substituteFrom_cons hc rfl]
    exact congrArg (fun z => '.' :: ("data".toList ++ '[' :: z)) (substituteFrom_congr hc rfl)
  obtain ⟨e, u, rfl, he, hu⟩ := identifier_cons ha
  rw [List.cons_append] at hword ⊢
  rw [substituteFrom_copy hc hword, substituteFrom_joined hc hu
    (joinsName_of_ident (isIdent_of_start he)), hdata]
  rfl

/-- A pass for another name goes through the phrase for a buffer. -/
theorem moves_buffer (ha : isIdentifier a = true) (hc : isIdentifier c = true) :
    Moves 1 (phraseBuffer .glsl a) (substituteFrom c n g none) := by
  intro s y hs hlen hy _
  have hindex : Balanced (s.indices.head?.getD []) := head_index rfl hs.indices
  have hhead : (s.map (substituteFrom c n g none)).indices.head?.getD [] =
      substituteFrom c n g none (s.indices.head?.getD []) := by
    match hi : s.indices, hlen with
    | [], _ => simp [Subscript.map, hi, substituteFrom_nil]
    | [i], _ => simp [Subscript.map, hi]
  have hplain : ∀ {e : Char} {z : List Char}, isApart e = true →
      substituteFrom c n g none (e :: z) = e :: substituteFrom c n g none z := by
    intro e z he
    rw [substituteFrom_cons hc (not_start_of_ident_false (isIdent_of_apart he))]
    exact congrArg _ (substituteFrom_congr hc (joinsName_of_apart he))
  have hrest : substituteFrom c n g none (bufferRest s ++ y) =
      bufferRest (s.map (substituteFrom c n g none)) ++ substituteFrom c n g none y := by
    rcases hs' : s.assign with _ | v
    · simp [bufferRest, Subscript.map, hs']
    have hvalue : substituteFrom c n g none (v.value ++ y) =
        substituteFrom c n g none v.value ++ substituteFrom c n g none y := by
      rcases hy v hs' with rfl | hstop
      · rw [List.append_nil, substituteFrom_nil, List.append_nil]
      · rcases y with _ | ⟨k, y⟩
        · cases hstop
        · have hk : isStop k = true := by simpa using hstop
          rw [substituteFrom_stop hc (hs.value v hs').balanced hk, substituteFrom_stop_cons hc hk]
    have hop : ∀ z, substituteFrom c n g none (v.op.toList ++ '=' :: ' ' :: z) =
        v.op.toList ++ '=' :: ' ' :: substituteFrom c n g none z := by
      intro z
      have hsign : substituteFrom c n g none ('=' :: ' ' :: z) =
          '=' :: ' ' :: substituteFrom c n g none z := by rw [hplain rfl, hplain rfl]
      rcases ho : v.op with _ | op
      · exact hsign
      · have hoper := hs.op v hs' op ho
        have hapart : isApart op = true := isApart_of_mark (by simp [isMark, hoper]) (by
          rintro rfl
          cases hoper)
        show substituteFrom c n g none (op :: '=' :: ' ' :: z) = _
        rw [hplain hapart, hsign]
        rfl
    have h := hplain (z := v.op.toList ++ '=' :: ' ' :: (v.value ++ y)) (e := ' ') rfl
    rw [hop, hvalue] at h
    simpa [bufferRest, Subscript.map, hs'] using h
  have h := substituteFrom_member (g := g) (n := n)
    (y := s.indices.head?.getD [] ++ ']' :: (bufferRest s ++ y)) ha hc
  rw [substituteFrom_stop hc hindex rfl, hrest] at h
  rw [phraseBuffer_eq, phraseBuffer_eq, hhead]
  simpa using h

end Moving

section Emptying

variable {c n : List Char} {m : Nat} {f : Subscript → List Char} {b : Option Char} {l : Nat}
  {x : List Char}

/-- No pass for another name makes an assignment of nothing. -/
theorem anywhere_empties (hf : Rule c m f) (hn : isIdentifier n = true) (hne : c ≠ n)
    (hp : ∀ b s y, s.WellFormed → s.indices.length ≤ m →
      (∀ v ∈ s.assign, y = [] ∨ y.head?.any isStop = true) → anywhere (empties n) b (f s ++ y) =
        (s.anyPart (empties n) || anywhere (empties n) none y))
    (hx : level? false l x = some 0) (ht : Tidy c f b x) :
    anywhere (empties n) b (substituteFrom c m f b x) = anywhere (empties n) b x := by
  refine substituteFrom_induct (f := f) hf.name
    (P := fun b x y => ∀ l, level? false l x = some 0 → Tidy c f b x →
      anywhere (empties n) b y = anywhere (empties n) b x)
    (fun _ _ _ _ => rfl) (fun b e r ho ih l hx ht => ?_)
    (fun b cs s rest ho hi ha hr l hx ht => ?_) b x l hx ht
  · have hhere : empties n b (e :: substituteFrom c m f (some e) r) = empties n b (e :: r) := by
      unfold empties usesWith
      rw [← substituteFrom_copy hf.name ho, occurrence?_substituteFrom hf hn hx ht ho,
        Option.any_map]
      congr 1
      funext p
      rcases p with ⟨⟨is, _ | v⟩, rest⟩
      · rfl
      · show (substituteFrom c m f none v.value).isEmpty = v.value.isEmpty
        rcases hv : v.value with _ | ⟨d, v'⟩
        · rw [substituteFrom_nil]
        · cases hs : substituteFrom c m f none (d :: v') with
          | nil => cases substituteFrom_eq_nil hf.name hf.start hs
          | cons => rfl
    rw [level?_cons] at hx
    obtain ⟨l', -, hr⟩ := Option.bind_eq_some_iff.1 hx
    rw [anywhere, anywhere, hhere, ih l' hr ht.tail]
  · have hu := (occurrence?_isUse ho).2
    obtain ⟨hw, hrl⟩ := hu.level hf.name hx
    obtain ⟨hti, hta, htr⟩ := ht.parts hf.name hf.name hu
    have hw' : (s.map (substituteFrom c m f none)).WellFormed :=
      hw.map (fun i hm => level?_substituteFrom hf.name hf.level (hw.indices i hm))
        fun v hv => level?_substituteFrom hf.name hf.level (hw.value v hv)
    have hend : ∀ v ∈ (s.map (substituteFrom c m f none)).assign,
        substituteFrom c m f none rest = [] ∨
          (substituteFrom c m f none rest).head?.any isStop = true := by
      intro v' hv'
      obtain ⟨v, hv, rfl⟩ := Option.map_eq_some_iff.1 hv'
      exact hu.ends_assignment hf.name v hv
    have hlen : (s.map (substituteFrom c m f none)).indices.length ≤ m := by
      simpa [Subscript.map] using occurrence?_indices ho
    have hparts : (s.map (substituteFrom c m f none)).anyPart (empties n) = s.anyPart (empties n) :=
      s.anyPart_map (fun i hm => hi i hm 0 (hw.indices i hm) (hti i hm))
        fun v hv => ha v hv 0 (hw.value v hv).balanced (hta v hv)
    have hno : empties n b cs = false := by
      unfold empties usesWith
      rw [occurrence?_of_other hn hf.name hne hu]
      rfl
    rw [hp b _ _ hw' hlen hend, hparts, hr l hrl htr, (finds_empties hn).use hf.name hu, hno,
      Bool.false_or]

end Emptying

section Orders

variable {d : Dialect} {p q : String × Form} {ps qs : List (String × Form)} {x : List Char}

/-- Parameters with different names, which are identifiers. -/
structure Named (ps : List (String × Form)) : Prop where
  identifier : ∀ p ∈ ps, isIdentifier p.1.toList = true
  nodup : (ps.map Prod.fst).Nodup

theorem Named.tail (h : Named (p :: ps)) : Named ps :=
  ⟨fun q hq => h.identifier q (List.mem_cons_of_mem _ hq), (List.nodup_cons.1 h.nodup).2⟩

theorem Named.perm (h : Named ps) (hp : ps.Perm qs) : Named qs :=
  ⟨fun q hq => h.identifier q (hp.mem_iff.2 hq), (hp.map _).nodup_iff.1 h.nodup⟩

theorem Named.ne (h : Named (p :: ps)) (hq : q ∈ ps) : p.1.toList ≠ q.1.toList := fun he =>
  (List.nodup_cons.1 h.nodup).1 (List.mem_map.2 ⟨q, hq, (String.toList_inj.1 he).symm⟩)

theorem Named.unique (h : Named ps) (hp : p ∈ ps) (hq : q ∈ ps) (he : p.1.toList = q.1.toList) :
    p = q := by
  induction ps with
  | nil => cases hp
  | cons r ps ih =>
    rcases List.mem_cons.1 hp with rfl | hp'
    · rcases List.mem_cons.1 hq with rfl | hq'
      · rfl
      · exact absurd he (h.ne hq')
    · rcases List.mem_cons.1 hq with rfl | hq'
      · exact absurd he.symm (h.ne hp')
      · exact ih h.tail hp' hq'

/-- A balanced text in which no use of a buffer assigns nothing. -/
structure Orderly (ps : List (String × Form)) (x : List Char) : Prop where
  balanced : Balanced x
  assigns : ∀ p ∈ ps, p.2 = .buffer → anywhere (empties p.1.toList) none x = false

theorem Orderly.perm (h : Orderly ps x) (hp : ps.Perm qs) : Orderly qs x :=
  ⟨h.balanced, fun q hq => h.assigns q (hp.mem_iff.2 hq)⟩

theorem balanced_phraseIfImage (hn : isIdentifier p.1.toList = true) (hx : Balanced x) :
    Balanced (phraseIfImage d x p) := by
  unfold phraseIfImage
  cases p.2 with
  | buffer => exact hx
  | image => exact level?_substituteFrom hn (phrasing_image hn).level hx

theorem Orderly.image (hps : Named ps) (hp : p ∈ ps) (h : Orderly ps x) :
    Orderly ps (phraseIfImage d x p) := by
  have hn := hps.identifier p hp
  refine ⟨balanced_phraseIfImage hn h.balanced, fun q hq hb => ?_⟩
  unfold phraseIfImage
  cases hf : p.2 with
  | buffer => exact h.assigns q hq hb
  | image readWrite =>
    have hm := hps.identifier q hq
    have hne : p.1.toList ≠ q.1.toList := fun he => by
      rw [hps.unique hp hq he, hb] at hf
      cases hf
    rw [← h.assigns q hq hb]
    refine anywhere_empties (rule_image hn) hm hne (fun b s y hs hlen hy => ?_) h.balanced
      (.inl endsTight_image)
    have hfront : empties q.1.toList b (phraseImage d p.1.toList readWrite s ++ y) = false := by
      rw [phraseImage_eq, call, List.append_assoc]
      unfold empties usesWith
      rw [List.cons_append, occurrence?_word hm
        (fun _ => ident_of_mem (isIdentifier_function s)) rfl (.inr ⟨rfl, by decide⟩)]
      rfl
    rw [(finds_empties hm).phraseImage (spares_usesWith hm hn) hn hs.indices hlen hs.op
      fun v hv => .inl (hs.value v hv), hfront, Bool.false_or]

theorem Orderly.images (hps : Named ps) (hqs : ∀ q ∈ qs, q ∈ ps) (h : Orderly ps x) :
    Orderly ps (qs.foldl (phraseIfImage d) x) := by
  induction qs generalizing x with
  | nil => exact h
  | cons q qs ih =>
    exact ih (fun p hp => hqs p (List.mem_cons_of_mem _ hp))
      (h.image hps (hqs q List.mem_cons_self))

theorem Orderly.buffer (hps : Named (p :: ps)) (h : Orderly (p :: ps) x) :
    Orderly ps (phraseIfBuffer .glsl x p) := by
  have hn := hps.identifier p List.mem_cons_self
  have hrest : Orderly ps x := ⟨h.balanced, fun q hq => h.assigns q (List.mem_cons_of_mem _ hq)⟩
  unfold phraseIfBuffer
  cases hf : p.2 with
  | image readWrite => exact hrest
  | buffer =>
    refine ⟨level?_substituteFrom hn (phrasing_buffer hn).level h.balanced, fun q hq hb => ?_⟩
    have hm := hps.tail.identifier q hq
    rw [← hrest.assigns q hq hb]
    refine anywhere_empties (rule_buffer hn) hm (hps.ne hq) (fun b s y hs hlen hy => ?_) h.balanced
      (.inr (h.assigns p List.mem_cons_self hf))
    have hfront : empties q.1.toList b (phraseBuffer .glsl p.1.toList s ++ y) = false := by
      rw [phraseBuffer_eq, List.append_assoc]
      unfold empties usesWith
      rw [List.cons_append, occurrence?_word hm (fun _ => ident_of_mem hn) rfl
        (.inr ⟨rfl, by decide⟩)]
      rfl
    have hv : ∀ v ∈ s.assign, IsValue v.value ∧ y.head?.any isStop = true ∨ y = [] := fun v hv =>
      (hy v hv).symm.imp_left fun h => ⟨hs.value v hv, h⟩
    rw [(finds_empties hm).phraseBuffer sparesMember_usesWith hn hs.indices hlen hs.op hv, hfront,
      Bool.false_or]

theorem phraseIfImage_comm (hps : Named (p :: q :: ps)) (hx : Balanced x) :
    phraseIfImage d (phraseIfImage d x p) q = phraseIfImage d (phraseIfImage d x q) p := by
  have hp := hps.identifier p List.mem_cons_self
  have hq := hps.tail.identifier q List.mem_cons_self
  have hne := hps.ne (q := q) List.mem_cons_self
  unfold phraseIfImage
  cases p.2 with
  | buffer => rfl
  | image readWrite =>
    cases q.2 with
    | buffer => rfl
    | image readWrite' =>
      exact (substituteFrom_comm (rule_image hp) (rule_image hq) hne
        (moves_image hp hq hne (phrasing_image hq) endsTight_image)
        (moves_image hq hp hne.symm (phrasing_image hp) endsTight_image) hx (.inl endsTight_image)
        (.inl endsTight_image)).symm

theorem phraseIfBuffer_comm (hps : Named (p :: q :: ps)) (hx : Orderly (p :: q :: ps) x) :
    phraseIfBuffer .glsl (phraseIfBuffer .glsl x p) q =
      phraseIfBuffer .glsl (phraseIfBuffer .glsl x q) p := by
  have hp := hps.identifier p List.mem_cons_self
  have hq := hps.tail.identifier q List.mem_cons_self
  have htp := hx.assigns p List.mem_cons_self
  have htq := hx.assigns q (List.mem_cons_of_mem _ List.mem_cons_self)
  unfold phraseIfBuffer
  cases hfp : p.2 with
  | image => rfl
  | buffer =>
    cases hfq : q.2 with
    | image => rfl
    | buffer =>
      exact (substituteFrom_comm (rule_buffer hp) (rule_buffer hq)
        (hps.ne List.mem_cons_self) (moves_buffer hp hq) (moves_buffer hq hp) hx.balanced
        (.inr (htp hfp)) (.inr (htq hfq))).symm

/-- Steps that may change places two by two may be taken in any order. -/
theorem foldl_perm {step : List Char → String × Form → List Char}
    {P : List (String × Form) → List Char → Prop}
    (hstep : ∀ p ps x, P (p :: ps) x → P ps (step x p))
    (hswap : ∀ p q ps x, P (p :: q :: ps) x → step (step x p) q = step (step x q) p)
    (hperm : ∀ ps qs x, ps.Perm qs → P ps x → P qs x) (h : ps.Perm qs) (hx : P ps x) :
    ps.foldl step x = qs.foldl step x := by
  induction h generalizing x with
  | nil => rfl
  | cons p _ ih => exact ih (hstep p _ x hx)
  | swap p q ps => rw [List.foldl_cons, List.foldl_cons, List.foldl_cons, List.foldl_cons,
      hswap q p ps x hx]
  | trans h₁ _ ih₁ ih₂ => exact (ih₁ hx).trans (ih₂ (hperm _ _ x h₁ hx))

/-- The order of the parameters makes no difference to how their uses are phrased. -/
theorem phraseUses_perm (d : Dialect) (params params' : List (String × Form))
    (hp : params.Perm params') (hid : ∀ p ∈ params, isIdentifier p.1.toList = true)
    (hnd : (params.map Prod.fst).Nodup) (x : List Char) (hx : Balanced x)
    (ha : ∀ p ∈ params, assignsNothing p.1.toList p.2.maxIndices none x = false) :
    phraseUses d params x = phraseUses d params' x := by
  have hnamed : Named params := ⟨hid, hnd⟩
  have himages : params.foldl (phraseIfImage d) x = params'.foldl (phraseIfImage d) x :=
    foldl_perm (P := fun ps x => Named ps ∧ Balanced x)
      (fun p ps x h => ⟨h.1.tail, balanced_phraseIfImage (h.1.identifier p List.mem_cons_self) h.2⟩)
      (fun p q ps x h => phraseIfImage_comm h.1 h.2) (fun ps qs x hp h => ⟨h.1.perm hp, h.2⟩) hp
      ⟨hnamed, hx⟩
  have horderly : Orderly params x := by
    refine ⟨hx, fun p hm hb => ?_⟩
    have hp := ha p hm
    rwa [hb, Form.maxIndices, assignsNothing_eq] at hp
  rw [phraseUses_eq, phraseUses_eq, ← himages]
  cases d with
  | wgsl => rfl
  | glsl =>
    refine congrArg dropMarkers (foldl_perm (P := fun ps x => Named ps ∧ Orderly ps x)
      (fun p ps x h => ⟨h.1.tail, h.2.buffer h.1⟩) (fun p q ps x h => phraseIfBuffer_comm h.1 h.2)
      (fun ps qs x hp h => ⟨h.1.perm hp, h.2.perm hp⟩) hp ⟨hnamed, ?_⟩)
    exact horderly.images hnamed fun _ => id

/-- Three parameters in two orders, with uses of each within uses of the others. -/
theorem phraseUses_perm_nested :
    let params := [("m", Form.buffer), ("a", .image false), ("data", .buffer)]
    let params' := [("data", Form.buffer), ("m", .buffer), ("a", .image false)]
    let x := "data[m[i]] = a[data[0]][ m[1] ] * m [j];".toList
    (params.Perm params' ∧ Balanced x ∧
      ∀ p ∈ params, assignsNothing p.1.toList p.2.maxIndices none x = false) ∧
    phraseUses .glsl params x = phraseUses .glsl params' x := by
  have hp : [("m", Form.buffer), ("a", .image false), ("data", .buffer)].Perm
      [("data", .buffer), ("m", .buffer), ("a", .image false)] := by decide
  exact ⟨⟨hp, by decide, by decide⟩,
    phraseUses_perm .glsl _ _ hp (by decide) (by decide) _ (by decide) (by decide)⟩

end Orders

end ComputeKernel.Body
