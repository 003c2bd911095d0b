import ComputeKernel.Proofs.Storing

/-!
# Taking out the uniform markers

The markers are taken out of a text last, and what stands on both sides of one is then joined. A
call that stores to an image stays one (`storeCall_dropMarkers`), and none comes about if no marker
stands right after an identifier (`stray_dropMarkers`). No pass moves a marker to such a place
(`anywhere_markerJoins`).
-/

namespace ComputeKernel.Body

open Text

variable {d : Dialect} {n k name : List Char} {ns : List (List Char)} {b b' : Option Char}
  {c e : Char} {u x y z r : List Char} {max : Nat} {f : Subscript → List Char}

/-- Whether a uniform marker stands right after an identifier. -/
def markerJoins (b : Option Char) (cs : List Char) : Bool :=
  b.any isIdent && uniformMarker.isPrefixOf cs

/-- A text in which no uniform marker stands right after an identifier. -/
def MarkersApart (x : List Char) : Prop := anywhere markerJoins none x = false

instance (x : List Char) : Decidable (MarkersApart x) := inferInstanceAs (Decidable (_ = _))

theorem marker_eq : uniformMarker = "this".toList ++ '.' :: ("uniform".toList ++ ['.']) := by decide

theorem marker_word (hu : ∀ c ∈ u, isIdent c = true) (he : isIdent e = false) (hd : e ≠ '.') :
    uniformMarker.isPrefixOf (u ++ e :: y) = false := by
  cases h : uniformMarker.isPrefixOf (u ++ e :: y) with
  | false => rfl
  | true =>
    obtain ⟨t, ht⟩ := List.isPrefixOf_iff_prefix.1 h
    rw [marker_eq, List.append_assoc, List.cons_append] at ht
    exact absurd (word_split (List.all_eq_true.1 (by decide)) hu rfl he ht).2.1.symm hd

theorem glimpses_markerJoins : Glimpses markerJoins where
  nil {b} := by simp [markerJoins, marker_eq]
  first {b c r} h := by
    rw [markerJoins, Bool.and_eq_true, marker_eq] at h
    have hc : 't' = c := by
      have h2 := h.2
      rw [show "this".toList = 't' :: "his".toList from rfl, List.cons_append, List.isPrefixOf,
        Bool.and_eq_true, beq_iff_eq] at h2
      exact h2.1
    exact hc ▸ rfl
  inside hc hu he hd := by rw [markerJoins, marker_word hu he hd, Bool.and_false]
  near hc := by
    rw [markerJoins, markerJoins, Option.any_some, isIdent_of_apart hc]
    rfl
  ahead {b e x y} he _ _ := by
    rw [markerJoins, markerJoins, isPrefixOf_append]
    rintro c ⟨⟩ hm
    have := joinsName_of_mem_marker hm
    rw [joinsName_of_apart he] at this
    cases this

theorem spares_markerJoins : Spares d name markerJoins := ⟨fun _ _ => rfl, rfl⟩

theorem sparesMember_markerJoins : SparesMember markerJoins where
  inside {c u y} hc hu := by
    cases h : uniformMarker.isPrefixOf (u ++ '.' :: ("data".toList ++ '[' :: y)) with
    | false => rw [markerJoins, h, Bool.and_false]
    | true =>
      obtain ⟨t, ht⟩ := List.isPrefixOf_iff_prefix.1 h
      rw [marker_eq, List.append_assoc, List.cons_append] at ht
      have hd := (word_split (List.all_eq_true.1 (by decide)) hu rfl rfl ht).2.2
      cases hd
  data := rfl

/-- No pass moves a marker behind an identifier. -/
theorem anywhere_markerJoins (hf : Quiet name f) (hr : Renders markerJoins max f)
    (h : anywhere markerJoins b (substituteFrom name max f b x) = true) :
    anywhere markerJoins b x = true := by
  refine anywhere_of_pass hf glimpses_markerJoins.finds hr (fun b c r ho h => ?_)
    (fun b cs s rest ho h => ?_) h
  · rwa [markerJoins, isPrefixOf_cons_substituteFrom hf.name fun _ => joinsName_of_mem_marker] at h
  · rw [markerJoins, isIdent_of_not_joins (occurrence?_isUse ho).1, Bool.false_and] at h
    cases h

theorem isSome_after? (u x : List Char) : (after? u x).isSome = u.isPrefixOf x := by
  induction u generalizing x with
  | nil => rfl
  | cons d u ih =>
    cases x with
    | nil => rfl
    | cons c x =>
      rw [after?, List.isPrefixOf]
      by_cases hdc : d = c
      · simp [hdc, ih]
      · simp [hdc]

/-- The marker at the front of a text. -/
def marker? : Recogniser Unit := fun _ cs => (after? uniformMarker cs).map ((), ·)

theorem cut_marker? (b b' : Option Char) (cs : List Char) :
    cut marker? b cs = cut marker? b' cs := by
  cases cs with
  | nil => rw [cut, cut]
  | cons c r =>
    rw [cut.eq_def marker? b, cut.eq_def marker? b']
    rfl

theorem dropMarkers_nil : dropMarkers [] = [] := by
  simp [dropMarkers, replaceAll, cut]

theorem dropMarkers_cons (h : uniformMarker.isPrefixOf (c :: r) = false) :
    dropMarkers (c :: r) = c :: dropMarkers r := by
  have ha : marker? none (c :: r) = none := by
    rw [← isSome_after?, Option.isSome_eq_false_iff, Option.isNone_iff_eq_none] at h
    rw [marker?, h]
    rfl
  show (cut marker? none (c :: r)).flatMap _ = _
  rw [cut]
  simp only [ha, List.flatMap_cons, List.singleton_append]
  rw [cut_marker? _ none]
  rfl

theorem dropMarkers_marker : dropMarkers (uniformMarker ++ r) = dropMarkers r := by
  obtain ⟨c, t, ht⟩ : ∃ c t, uniformMarker = c :: t := ⟨'t', "his.uniform.".toList, rfl⟩
  have ha : marker? none (c :: (t ++ r)) = some ((), r) := by
    rw [marker?, ← List.cons_append, ← ht, after?_self]
    rfl
  have hlen : (c :: (t ++ r)).length - r.length = (c :: t).length := by
    simp only [List.length_cons, List.length_append]
    omega
  show (cut marker? none (uniformMarker ++ r)).flatMap _ = _
  rw [ht, List.cons_append, cut]
  simp only [ha, hlen]
  rw [if_pos (by simp only [List.length_cons, List.length_append]; omega), ← List.cons_append,
    List.drop_left, List.flatMap_cons]
  simp only [Option.getD_some, List.nil_append]
  rw [cut_marker? _ none]
  rfl

/-- Induction along a text, a marker at a time. -/
theorem marker_induct {P : Option Char → List Char → Prop} (nil : ∀ b, P b [])
    (cons : ∀ b c r, uniformMarker.isPrefixOf (c :: r) = false → P (some c) r → P b (c :: r))
    (marker : ∀ b r, P (some '.') r → P b (uniformMarker ++ r)) (b : Option Char) (x : List Char) :
    P b x := by
  induction hl : x.length using Nat.strongRecOn generalizing b x with
  | _ l ih =>
    cases x with
    | nil => exact nil b
    | cons c r =>
      cases hp : uniformMarker.isPrefixOf (c :: r) with
      | false => exact cons b c r hp (ih _ (by simp [← hl]) _ _ rfl)
      | true =>
        obtain ⟨t, ht⟩ := List.isPrefixOf_iff_prefix.1 hp
        rw [← ht] at hl ⊢
        refine marker b t (ih _ ?_ _ _ rfl)
        have hpos : 0 < uniformMarker.length := by decide
        rw [List.length_append] at hl
        omega

theorem dropMarkers_word (hu : ∀ c ∈ u, isIdent c = true) (he : isIdent e = false) (hd : e ≠ '.') :
    dropMarkers (u ++ e :: z) = u ++ e :: dropMarkers z := by
  induction u with
  | nil => exact dropMarkers_cons (marker_word (u := []) (by simp) he hd)
  | cons c u ih =>
    have hc : uniformMarker.isPrefixOf (c :: (u ++ e :: z)) = false := marker_word hu he hd
    rw [List.cons_append, dropMarkers_cons hc, ih fun d hd => hu d (List.mem_cons_of_mem _ hd)]
    rfl

theorem dropMarkers_storeHead (hk : isIdentifier k = true) :
    dropMarkers (storeHead d k ++ z) = storeHead d k ++ dropMarkers z := by
  have h : dropMarkers (d.storeFunction.toList ++ '(' :: (k ++ ',' :: z)) =
      d.storeFunction.toList ++ '(' :: (k ++ ',' :: dropMarkers z) := by
    rw [dropMarkers_word isIdent_storeFunction rfl (by decide),
      dropMarkers_word (fun _ => ident_of_mem hk) rfl (by decide)]
  simpa [storeHead] using h

theorem storeHead_dropMarkers (hk : isIdentifier k = true)
    (hc : uniformMarker.isPrefixOf (c :: r) = false)
    (h : (storeHead d k).isPrefixOf (c :: r) = true) :
    (storeHead d k).isPrefixOf (c :: dropMarkers r) = true := by
  obtain ⟨z, hz⟩ := List.isPrefixOf_iff_prefix.1 h
  rw [← dropMarkers_cons hc, ← hz, dropMarkers_storeHead hk]
  exact List.isPrefixOf_iff_prefix.2 ⟨_, rfl⟩

/-- No call stands within a marker. -/
theorem anywhere_storeCall_marker :
    anywhere (storeCall d n) b (uniformMarker ++ r) = anywhere (storeCall d n) (some '.') r := by
  have hno : ∀ {u z : List Char} {b : Option Char}, (∀ c ∈ u, isIdent c = true) →
      storeCall d n b (u ++ '.' :: z) = false := fun hu => by
    rw [storeCall, not_storeHead hu rfl (by decide), Bool.and_false]
  have hword : ∀ (u z : List Char) (b : Option Char), (∀ c ∈ u, isIdent c = true) →
      anywhere (storeCall d n) b (u ++ '.' :: z) = anywhere (storeCall d n) (some '.') z := by
    intro u z
    induction u with
    | nil =>
      intro b hu
      have h : storeCall d n b ('.' :: z) = false := hno hu
      rw [List.nil_append, anywhere, h, Bool.false_or]
    | cons c u ih =>
      intro b hu
      have h : storeCall d n b (c :: (u ++ '.' :: z)) = false := hno hu
      rw [List.cons_append, anywhere, h, Bool.false_or]
      exact ih _ fun d hd => hu d (List.mem_cons_of_mem _ hd)
  rw [marker_eq, List.append_assoc, List.cons_append, hword _ _ _ (List.all_eq_true.1 (by decide)),
    List.append_assoc, List.singleton_append, hword _ _ _ (List.all_eq_true.1 (by decide))]

/-- A call that stores to an image stays one when the markers are taken out. -/
theorem storeCall_dropMarkers (hn : isIdentifier n = true)
    (h : anywhere (storeCall d n) b x = true) :
    anywhere (storeCall d n) b (dropMarkers x) = true := by
  -- The character before a place changes only behind a marker, and no call stands right there.
  refine marker_induct (P := fun b x => ∀ b', b' = b ∨ b = some '.' →
    anywhere (storeCall d n) b x = true → anywhere (storeCall d n) b' (dropMarkers x) = true)
    (fun b b' _ h => by cases h) (fun b c r hc ih b' hb h => ?_) (fun b r ih b' hb h => ?_)
    b x b (.inl rfl) h
  · rw [dropMarkers_cons hc]
    rw [anywhere, Bool.or_eq_true] at h ⊢
    refine h.imp (fun h => ?_) (ih _ (.inl rfl))
    rw [storeCall, Bool.and_eq_true, Bool.and_eq_true, Bool.not_eq_true'] at h
    obtain rfl : b' = b := hb.resolve_right fun hb => by
      rw [hb] at h
      exact absurd h.1.1 (by decide)
    rw [storeCall, h.1.1, h.1.2, storeHead_dropMarkers hn hc h.2]
    rfl
  · rw [anywhere_storeCall_marker] at h
    rw [dropMarkers_marker]
    exact ih b' (.inr rfl) h

theorem isPrefixOf_of_dropMarkers (hu : ∀ c ∈ u, isIdent c = true) (hc : isIdent c = true)
    (hx : anywhere markerJoins (some c) x = false) (h : u.isPrefixOf (dropMarkers x) = true) :
    u.isPrefixOf x = true := by
  induction u generalizing c x with
  | nil => rfl
  | cons d u ih =>
    cases x with
    | nil => rwa [dropMarkers_nil] at h
    | cons e x =>
      rw [anywhere, Bool.or_eq_false_iff, markerJoins, Option.any_some, hc, Bool.true_and] at hx
      rw [dropMarkers_cons hx.1, List.isPrefixOf, Bool.and_eq_true, beq_iff_eq] at h
      obtain ⟨rfl, h⟩ := h
      rw [List.isPrefixOf, beq_self_eq_true, Bool.true_and]
      exact ih (fun c hc => hu c (List.mem_cons_of_mem _ hc)) (hu d List.mem_cons_self) hx.2 h

/-- Taking the markers out makes no stray call if no marker is right behind an identifier. -/
theorem stray_dropMarkers (hns : ∀ k ∈ ns, isIdentifier k = true) (hx : MarkersApart x)
    (h : anywhere (stray d ns n) none (dropMarkers x) = true) :
    anywhere (stray d ns n) none x = true := by
  -- After a marker, `b` is its dot and `b'` is the character before it, which is no identifier.
  refine marker_induct (P := fun b x => ∀ b', b' = b ∨ b = some '.' ∧ b'.any isIdent = false →
    anywhere markerJoins b x = false → anywhere (stray d ns n) b' (dropMarkers x) = true →
      anywhere (stray d ns n) b x = true)
    (fun b b' _ _ h => by rw [dropMarkers_nil] at h; cases h) (fun b c r hc ih b' hb hx h => ?_)
    (fun b r ih b' hb hx h => ?_) none x none (.inl rfl) hx h
  · rw [anywhere, Bool.or_eq_false_iff] at hx
    rw [dropMarkers_cons hc] at h
    rw [anywhere, Bool.or_eq_true] at h ⊢
    refine h.imp (fun h => ?_) (ih _ (.inl rfl) hx.2)
    simp only [stray, Bool.and_eq_true, Bool.not_eq_true', List.any_eq_false] at h ⊢
    refine ⟨⟨?_, ?_⟩, fun k hk hharmless => h.2 k hk ⟨storeHead_dropMarkers (hns k hk) hc
      hharmless.1, ?_⟩⟩
    · rcases hb with rfl | ⟨rfl, -⟩
      · exact h.1.1
      · rfl
    · obtain ⟨e, u, hs, he⟩ := storeFunction_start (d := d)
      have hall : ∀ c ∈ e :: u, isIdent c = true := hs ▸ isIdent_storeFunction
      have hstore := h.1.2
      rw [hs, List.isPrefixOf, Bool.and_eq_true, beq_iff_eq] at hstore ⊢
      obtain ⟨rfl, hstore⟩ := hstore
      exact ⟨rfl, isPrefixOf_of_dropMarkers (fun c hc => hall c (List.mem_cons_of_mem _ hc))
        (isIdent_of_start he) hx.2 hstore⟩
    · rcases hb with rfl | ⟨rfl, -⟩
      · exact hharmless.2
      · have hdot : atWordStart (some '.') = true := by decide
        rw [hdot, Bool.and_true] at hharmless
        rw [hharmless.2, Bool.false_and]
  · have hb' : b'.any isIdent = false := by
      rcases hb with rfl | ⟨-, hb⟩
      · obtain ⟨c, t, ht⟩ : ∃ c t, uniformMarker = c :: t := ⟨'t', "his.uniform.".toList, rfl⟩
        rw [ht, List.cons_append, anywhere, Bool.or_eq_false_iff, markerJoins, ← List.cons_append,
          ← ht] at hx
        have hp : uniformMarker.isPrefixOf (uniformMarker ++ r) = true :=
          List.isPrefixOf_iff_prefix.2 (List.prefix_append _ _)
        simpa [hp] using hx.1
      · exact hb
    have hr : anywhere markerJoins (some '.') r = false := by
      cases hr : anywhere markerJoins (some '.') r with
      | false => rfl
      | true =>
        have := anywhere_prepend (u := uniformMarker) (b := b) hr
        rw [hx] at this
        cases this
    rw [dropMarkers_marker] at h
    exact anywhere_prepend (u := uniformMarker) (ih b' (.inr ⟨rfl, hb'⟩) hr h)

end ComputeKernel.Body
