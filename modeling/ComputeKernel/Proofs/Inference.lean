import ComputeKernel.Proofs.Cutting
import ComputeKernel.Proofs.Exchange
import ComputeKernel.Proofs.Markers

/-!
# Inferred access

What `inferAccess` finds out about an image is what its assignments say. Of a text without a name of
the store function and without a uniform marker right after an identifier, the phrased text has a
call that stores to an image if and only if the text has a visible assignment to it
(`storeCall_phraseUses`, `stray_phraseUses`). Such an assignment is one that a pass for the image
finds (`reported`), and so the same holds for a whole body, which is phrased piece by piece
(`inferAccess_ofBody`).
-/

namespace ComputeKernel.Body

open Text

section Texts

variable {params ps : List (String × Form)} {d : Dialect} {a : String} {readWrite : Bool}
  {p : String × Form} {x : List Char}

def paramNames (params : List (String × Form)) : List (List Char) := params.map (·.1.toList)

theorem Named.names (h : Named params) : ∀ k ∈ paramNames params, isIdentifier k = true := by
  intro k hk
  obtain ⟨p, hp, rfl⟩ := List.mem_map.1 hk
  exact h.identifier p hp

/-- The parameters before and after one of them have other names. -/
theorem Named.split (h : Named params) (hp : p ∈ params) : ∃ front back,
    params = front ++ p :: back ∧ ∀ q ∈ front ++ back, q ∈ params ∧ q.1.toList ≠ p.1.toList := by
  obtain ⟨front, back, rfl⟩ := List.append_of_mem hp
  refine ⟨front, back, rfl, fun q hq => ⟨?_, fun he => ?_⟩⟩
  · rcases List.mem_append.1 hq with hq | hq
    · exact List.mem_append_left _ hq
    · exact List.mem_append_right _ (List.mem_cons_of_mem _ hq)
  · have hperm : (front ++ p :: back).Perm (p :: (front ++ back)) := List.perm_middle
    exact (h.perm hperm).ne hq he.symm

/-- What each pass for an image keeps is kept by all of them. -/
theorem images_induct {P : List Char → Prop}
    (h : ∀ p ∈ ps, ∀ readWrite, ∀ x, P x →
      P (substitute p.1.toList 2 (phraseImage d p.1.toList readWrite) x))
    (hx : P x) : P (ps.foldl (phraseIfImage d) x) := by
  induction ps generalizing x with
  | nil => exact hx
  | cons p ps ih =>
    refine ih (fun q hq => h q (List.mem_cons_of_mem _ hq)) ?_
    unfold phraseIfImage
    cases p.2 with
    | buffer => exact hx
    | image readWrite => exact h p List.mem_cons_self readWrite x hx

theorem buffers_induct {P : List Char → Prop}
    (h : d = .glsl → ∀ p ∈ ps, ∀ x, P x →
      P (substitute p.1.toList 1 (phraseBuffer .glsl p.1.toList) x))
    (hx : P x) : P (phraseBuffers d ps x) := by
  cases d with
  | wgsl => exact hx
  | glsl =>
    show P (ps.foldl (phraseIfBuffer .glsl) x)
    induction ps generalizing x with
    | nil => exact hx
    | cons p ps ih =>
      refine ih ?_ fun hd q hq => h hd q (List.mem_cons_of_mem _ hq)
      unfold phraseIfBuffer
      cases p.2 with
      | image => exact hx
      | buffer => exact h rfl p List.mem_cons_self x hx

theorem foldl_split {front back : List (String × Form)}
    (hparams : params = front ++ (a, .image readWrite) :: back) (x : List Char) :
    params.foldl (phraseIfImage d) x = back.foldl (phraseIfImage d)
      (substitute a.toList 2 (phraseImage d a.toList readWrite)
        (front.foldl (phraseIfImage d) x)) := by
  rw [hparams, List.foldl_append]
  rfl

/-- A visible assignment to an image becomes a call that stores to it. -/
theorem storeCall_phraseUses (hps : Named params) (ha : (a, .image readWrite) ∈ params)
    (h : anywhere (assignsHere a.toList) none x = true) :
    anywhere (storeCall d a.toList) none (phraseUses d params x) = true := by
  have hn : isIdentifier a.toList = true := hps.identifier _ ha
  obtain ⟨front, back, hparams, hother⟩ := hps.split ha
  have hfront : anywhere (assignsHere a.toList) none (front.foldl (phraseIfImage d) x) = true := by
    refine images_induct (P := fun x => anywhere (assignsHere a.toList) none x = true)
      (fun p hp rw x h => ?_) h
    obtain ⟨hmem, hne⟩ := hother p (List.mem_append_left _ hp)
    exact (anywhere_assignsHere hn (hps.identifier p hmem) hne).trans h
  rw [phraseUses_eq, foldl_split hparams]
  refine storeCall_dropMarkers hn (buffers_induct
    (P := fun x => anywhere (storeCall d a.toList) none x = true) (fun hd p hp x h => ?_)
    (images_induct (P := fun x => anywhere (storeCall d a.toList) none x = true)
      (fun p hp rw x h => ?_) (anywhere_storeCall_of_assignsHere hn hfront)))
  · subst hd
    exact anywhere_storeCall hn (quiet_buffer (hps.identifier p hp)) (renders_buffer
      (hps.identifier p hp) (glimpses_storeCall hn).finds sparesMember_storeCall) h
  · have hm := hps.identifier p (hother p (List.mem_append_right _ hp)).1
    exact anywhere_storeCall hn (quiet_image hm) (renders_storeCall_image hn hm) h

/-- A text without a stray call of the store function, in which none can come about when the markers
are taken out. -/
structure Calm (d : Dialect) (ns : List (List Char)) (n x : List Char) : Prop where
  markers : MarkersApart x
  stray : anywhere (stray d ns n) none x = false

variable {ns : List (List Char)} {n name : List Char}

theorem eq_false_of_imp {p q : Bool} (h : p = true → q = true) (hq : q = false) : p = false := by
  revert p q
  decide

theorem MarkersApart.image (hm : isIdentifier name = true) (hx : MarkersApart x) :
    MarkersApart (substitute name 2 (phraseImage d name readWrite) x) :=
  eq_false_of_imp (anywhere_markerJoins (quiet_image hm) (renders_image hm
    glimpses_markerJoins.finds glimpses_markerJoins.closes spares_markerJoins)) hx

theorem Calm.image (hns : ∀ k ∈ ns, isIdentifier k = true) (hmem : name ∈ ns)
    (hn : name = n → anywhere (assignsHere n) none x = false) (h : Calm d ns n x) :
    Calm d ns n (substitute name 2 (phraseImage d name readWrite) x) := by
  refine ⟨h.markers.image (hns name hmem), eq_false_of_imp (fun hs => ?_) h.stray⟩
  by_cases hne : name = n
  · subst hne
    refine (anywhere_stray_own hns hmem hs).resolve_right ?_
    rw [hn rfl]
    exact Bool.false_ne_true
  · exact anywhere_stray_image hns hmem hne hs

theorem Calm.buffer (hns : ∀ k ∈ ns, isIdentifier k = true) (hm : isIdentifier name = true)
    (h : Calm .glsl ns n x) : Calm .glsl ns n (substitute name 1 (phraseBuffer .glsl name) x) :=
  ⟨eq_false_of_imp (anywhere_markerJoins (quiet_buffer hm) (renders_buffer hm
    glimpses_markerJoins.finds sparesMember_markerJoins)) h.markers,
    eq_false_of_imp (anywhere_stray_buffer hns hm) h.stray⟩

/-- Nothing else becomes one, if no marker is right behind an identifier. -/
theorem stray_phraseUses (hps : Named params) (ha : (a, .image readWrite) ∈ params)
    (hx : Calm d (paramNames params) a.toList x)
    (hv : anywhere (assignsHere a.toList) none x = false) :
    anywhere (Body.stray d (paramNames params) a.toList) none (phraseUses d params x) = false := by
  have hn : isIdentifier a.toList = true := hps.identifier _ ha
  have hmem : ∀ p ∈ params, p.1.toList ∈ paramNames params := fun p hp =>
    List.mem_map.2 ⟨p, hp, rfl⟩
  obtain ⟨front, back, hparams, hother⟩ := hps.split ha
  -- Only the pass for the image itself makes stores to it, and the passes before that one leave it
  -- without an assignment to make one of.
  have hfront : Calm d (paramNames params) a.toList (front.foldl (phraseIfImage d) x) ∧
      anywhere (assignsHere a.toList) none (front.foldl (phraseIfImage d) x) = false := by
    refine images_induct (P := fun x => Calm d (paramNames params) a.toList x ∧
      anywhere (assignsHere a.toList) none x = false) (fun p hp rw x h => ?_) ⟨hx, hv⟩
    obtain ⟨hp', hne⟩ := hother p (List.mem_append_left _ hp)
    exact ⟨h.1.image hps.names (hmem p hp') fun he => absurd he hne,
      (anywhere_assignsHere hn (hps.identifier p hp') hne).trans h.2⟩
  have hcalm : Calm d (paramNames params) a.toList
      (phraseBuffers d params (params.foldl (phraseIfImage d) x)) := by
    rw [foldl_split hparams]
    refine buffers_induct (fun hd p hp x h => ?_) (images_induct (fun p hp rw x h => ?_)
      (hfront.1.image hps.names (hmem _ ha) fun _ => hfront.2))
    · subst hd
      exact h.buffer hps.names (hps.identifier p hp)
    · obtain ⟨hp', hne⟩ := hother p (List.mem_append_right _ hp)
      exact h.image hps.names (hmem p hp') fun he => absurd he hne
  rw [phraseUses_eq]
  exact eq_false_of_imp (stray_dropMarkers hps.names hcalm.markers) hcalm.stray

end Texts

section Recognition

variable {d : Dialect} {n : List Char} {ns : List (List Char)} {b : Option Char}
  {q q' : Option Char → List Char → Bool} {x cs : List Char}

theorem anywhere_imp (h : ∀ b c r, q b (c :: r) = true → anywhere q' b (c :: r) = true)
    (hx : anywhere q b x = true) : anywhere q' b x = true := by
  induction x generalizing b with
  | nil => cases hx
  | cons c x ih =>
    rw [anywhere, Bool.or_eq_true] at hx
    refine hx.elim (h b c x) fun hx => ?_
    rw [anywhere, ih hx, Bool.or_true]

theorem anywhere_mono (h : ∀ b cs, q b cs = true → q' b cs = true) (hx : anywhere q b x = true) :
    anywhere q' b x = true :=
  anywhere_imp (fun b c r hq => by rw [anywhere, h b _ hq, Bool.true_or]) hx

theorem hasStore_eq : hasStore d n x = anywhere (storesHere d n) none x := by
  unfold hasStore
  generalize none = b
  induction x generalizing b with
  | nil => rfl
  | cons c x ih => rw [hasStoreFrom, anywhere, ih]

theorem storesHere_of_storeCall (hn : isIdentifier n = true) (h : storeCall d n b cs = true) :
    storesHere d n b cs = true := by
  rw [storeCall, Bool.and_eq_true, Bool.and_eq_true] at h
  obtain ⟨z, hz⟩ := List.isPrefixOf_iff_prefix.1 h.2
  have hcs : cs = d.storeFunction.toList ++ '(' :: (n ++ ',' :: z) := by simp [← hz, storeHead]
  have hafter : (after? d.storeFunction.toList cs).map trimStart =
      some ('(' :: (n ++ ',' :: z)) := by
    rw [hcs, after?_self]
    rfl
  have hname : (after? n (n ++ ',' :: z)).any commaNext = true := by
    rw [after?_self]
    rfl
  obtain ⟨c, u, rfl, -⟩ := identifier_cons hn
  simp only [storesHere, h.1.2, hafter, Bool.true_and]
  rw [List.cons_append] at hname ⊢
  rw [afterSomeBlanks, hname, Bool.true_or]

/-- What is recognised as a store to an image is stray. -/
theorem stray_of_storesHere (hns : ∀ k ∈ ns, isIdentifier k = true) (hn : isIdentifier n = true)
    (h : storesHere d n b cs = true) : stray d ns n b cs = true := by
  rw [storesHere, Bool.and_eq_true] at h
  obtain ⟨hb, h⟩ := h
  have hident : b.any isIdent = false := by
    cases b with
    | none => rfl
    | some c =>
      simp only [atWordStart, Option.any_some, isWord, Bool.not_eq_true',
        Bool.or_eq_false_iff] at hb
      exact hb.1
  rcases hr : after? d.storeFunction.toList cs with _ | r <;> rw [hr] at h
  · cases h
  have hcs := after?_eq_some hr
  simp only [stray, Bool.and_eq_true, Bool.not_eq_true', List.any_eq_false]
  refine ⟨⟨hident, List.isPrefixOf_iff_prefix.2 ⟨r, hcs.symm⟩⟩, fun k hk hharmless => ?_⟩
  obtain ⟨z, hz⟩ := List.isPrefixOf_iff_prefix.1 hharmless.1
  have hki := hns k hk
  -- The call reads `k,` after the bracket, so it is `k` that it stores to.
  obtain rfl : r = '(' :: (k ++ ',' :: z) := by
    refine (List.append_right_inj d.storeFunction.toList).1 ?_
    rw [← hcs, ← hz]
    simp [storeHead]
  have hsome : afterSomeBlanks (fun r => (after? n r).any commaNext) (k ++ ',' :: z) = true := h
  have hkn : k = n := by
    obtain ⟨c, u, rfl, hc, -⟩ := identifier_cons hki
    rw [List.cons_append, afterSomeBlanks, not_blank_of_ident (isIdent_of_start hc), Bool.false_and,
      Bool.or_false, ← List.cons_append] at hsome
    rcases ht : after? n (c :: u ++ ',' :: z) with _ | t <;> rw [ht] at hsome
    · cases hsome
    have hnt := after?_eq_some ht
    obtain ⟨w, hw, htw, -⟩ := exists_trimStart t
    obtain ⟨t', ht'⟩ : ∃ t', trimStart t = ',' :: t' := by
      rw [Option.any_some, commaNext, beq_iff_eq] at hsome
      cases hts : trimStart t with
      | nil => simp [hts] at hsome
      | cons e t' =>
        rw [hts, List.head?_cons] at hsome
        exact ⟨t', by rw [Option.some.inj hsome]⟩
    rw [htw, ht'] at hnt
    rcases w with _ | ⟨e, w⟩
    · exact (word_split (fun _ => ident_of_mem hki) (fun _ => ident_of_mem hn) rfl rfl hnt).1
    · have he := hw e List.mem_cons_self
      have := (word_split (fun _ => ident_of_mem hki) (fun _ => ident_of_mem hn) rfl
        (isIdent_of_apart (isApart_of_blank he)) hnt).2.1
      rw [← this] at he
      cases he
  rw [hkn, beq_self_eq_true, hb] at hharmless
  exact absurd hharmless.2 (by decide)

theorem isInfix_of_stray (h : anywhere (stray d ns n) b x = true) :
    d.storeFunction.toList <:+: x := by
  induction x generalizing b with
  | nil => cases h
  | cons c x ih =>
    rw [anywhere, Bool.or_eq_true] at h
    rcases h with h | h
    · rw [stray, Bool.and_eq_true, Bool.and_eq_true, List.isPrefixOf_iff_prefix] at h
      exact h.1.2.isInfix
    · exact (ih h).trans (List.suffix_cons c x).isInfix

end Recognition

section Reports

set_option linter.unusedVariables false in
/-- The uses of a name that a pass finds in a text, those in indices and values included. -/
def reported (name : List Char) (max : Nat) (before : Option Char) (cs : List Char) :
    List Subscript :=
  match cs with
  | [] => []
  | c :: r =>
    match ho : occurrence? name max before (c :: r) with
    | some (s, rest) =>
      (s.indices.attach.flatMap fun i => reported name max none i.1) ++
        (s.assign.attach.toList.flatMap fun a => reported name max none a.1.value) ++
        s :: reported name max none rest
    | none => reported name max (some c) r
termination_by cs.length
decreasing_by
  · exact (occurrence?_shorter ho).2.1 i.1 i.2
  · exact (occurrence?_shorter ho).2.2 a.1 a.2
  · exact (occurrence?_shorter ho).1
  · simp

variable {name : List Char} {max : Nat} {f g : Subscript → List Char} {b : Option Char}
  {p : Subscript → Bool} {s : Subscript} {x cs rest : List Char}

theorem reported_use (h : occurrence? name max b cs = some (s, rest)) :
    reported name max b cs = (s.indices.flatMap (reported name max none)) ++
      (s.assign.toList.flatMap fun a => reported name max none a.value) ++
      s :: reported name max none rest := by
  cases cs with
  | nil =>
    have := (occurrence?_shorter h).1
    simp at this
  | cons c r =>
    rw [reported]
    split
    · rename_i s' rest' h'
      cases h.symm.trans h'
      rcases s with ⟨is, _ | a⟩ <;> simp [List.flatMap_subtype]
    · rename_i h'
      cases h.symm.trans h'

theorem reported_copy {c : Char} {r : List Char} (h : occurrence? name max b (c :: r) = none) :
    reported name max b (c :: r) = reported name max (some c) r := by
  rw [reported]
  split
  · rename_i h'
    cases h.symm.trans h'
  · rfl

theorem any_reported (hn : isIdentifier name = true) :
    (reported name max b x).any p = anywhere (usesWith name max p) b x := by
  refine @substituteFrom_induct name max (fun _ => []) hn
    (fun b x _ => (reported name max b x).any p = anywhere (usesWith name max p) b x)
    (fun b => by rw [reported]; rfl) (fun b c r ho ih => ?_)
    (fun b cs s rest ho hi ha hr => ?_) b x
  · rw [reported_copy ho, ih, anywhere, usesWith, ho]
    rfl
  · have hparts : s.anyPart (usesWith name max p) =
        ((s.indices.flatMap (reported name max none)).any p ||
          (s.assign.toList.flatMap fun a => reported name max none a.value).any p) := by
      rw [Subscript.anyPart, List.any_flatMap, List.any_flatMap]
      congr 1
      · rw [Bool.eq_iff_iff, List.any_eq_true, List.any_eq_true]
        exact exists_congr fun i => and_congr_right fun hm => by rw [hi i hm]
      · rcases hs : s.assign with _ | a
        · rfl
        · simp [ha a hs]
    rw [reported_use ho, (finds_usesWith hn).use hn (occurrence?_isUse ho).2, hparts,
      List.any_append, List.any_append, List.any_cons, hr, usesWith, ho, Option.any_some]
    simp [Bool.or_assoc, Bool.or_left_comm]

end Reports

section Bodies

variable {d : Dialect} {params : List (String × Form)} {a : String} {readWrite : Bool}
  {body t x : List Char} {q : Option Char → List Char → Bool} {P : List Char → Prop}

/-- The pieces of a body in which uses are looked for, as they are before any is phrased: its
constants, its helpers and what remains. -/
def scanned (d : Dialect) (body : List Char) : List (List Char) :=
  let helpers := hoistHelpers d (hoistShared d body).1
  let constants := hoistConstants helpers.1
  constants.2 ++ helpers.2 ++ [constants.1]

theorem anywhere_lines (hq : Glimpses q) {ls : List (List Char)} :
    anywhere q none (ls.flatMap (· ++ ['\n']) ++ x) =
      (ls.any (anywhere q none) || anywhere q none x) := by
  induction ls with
  | nil => rfl
  | cons l ls ih =>
    rw [List.flatMap_cons, List.append_assoc, List.append_assoc, List.cons_append, List.nil_append,
      hq.lines, ih, List.any_cons, Bool.or_assoc]

theorem anywhere_allText (hq : Glimpses q) :
    anywhere q none (Parts.ofBody d params body).allText =
      ((hoistShared d body).2.any (anywhere q none) ||
        (scanned d body).any fun t => anywhere q none (phraseUses d params t)) := by
  rw [Parts.allText, anywhere_lines hq]
  simp only [Parts.outside, Parts.ofBody, scanned, List.any_append, List.any_map, List.any_cons,
    List.any_nil, Bool.or_false, Bool.or_assoc]
  rfl

theorem isWord_of_isIdent {c : Char} (h : isIdent c = true) : isWord c = true := by
  rw [isWord, h, Bool.true_or]

/-- What holds of a body holds of its pieces, if it goes over to parts of a text and to what is left
of it, and over the marks in the head of a helper. -/
theorem scanned_induct (nil : P [])
    (seam : ∀ x y e, e ∈ headMarks → P x → P y → P (x ++ e :: y))
    (word : P "fn".toList ∧ P "void".toList) (part : ∀ x t, t <:+: x → P x → P t)
    (cut : ∀ x y, Cut isIdent none x y → P x → P y) (hbody : P body) :
    ∀ t ∈ scanned d body, P t := by
  have hshared : P (hoistShared d body).1 :=
    cut _ _ ((cut_hoistShared d body).mono fun _ => isWord_of_isIdent) hbody
  obtain ⟨hcut, hwithin⟩ := cut_takeHelpers none (hoistShared d body).1
  have hhelpers : hoistHelpers d (hoistShared d body).1 =
      ((takeHelpers none (hoistShared d body).1).1,
        (takeHelpers none (hoistShared d body).1).2.map (Helper.text d)) := hoistHelpersFrom_eq ..
  have hrest := cut _ _ (hcut.mono fun _ => isWord_of_isIdent) hshared
  -- A constant may start after any character outside ASCII, so the words are those of `isIdent`.
  obtain ⟨hcut', hconstants⟩ := cut_hoistConstantsFrom (b := none) 0 (.inl rfl)
    (takeHelpers none (hoistShared d body).1).1
  intro t ht
  simp only [scanned, hhelpers, hoistConstants, List.mem_append, List.mem_map,
    List.mem_singleton] at ht
  rcases ht with (ht | ⟨h, hm, rfl⟩) | rfl
  · exact part _ t (hconstants t ht) hrest
  · have hw := hwithin h hm
    have hhead := functionHead_induct (d := d) nil seam word (part _ _ hw.name hshared)
      (part _ _ hw.args hshared) fun r hr => part _ _ (hw.result r hr) hshared
    exact seam _ _ _ (by simp [headMarks]) hhead (part _ _ hw.block hshared)
  · exact cut _ _ hcut' hrest

theorem ascii_of_all (h : x.all (fun c => c.toNat < 0x80) = true) : ∀ c ∈ x, c.toNat < 0x80 :=
  fun c hc => of_decide_eq_true (List.all_eq_true.1 h c hc)

theorem ascii_scanned (h : ∀ c ∈ body, c.toNat < 0x80) :
    ∀ t ∈ scanned d body, ∀ c ∈ t, c.toNat < 0x80 := by
  refine scanned_induct (P := fun t => ∀ c ∈ t, c.toNat < 0x80) (by simp)
    (fun x y e he hx hy c hc => ?_) (by simp) (fun x t ht hx c hc => hx c (ht.subset hc))
    (fun x y hcut hx c hc => hx c (hcut.subset c hc)) h
  rw [List.mem_append, List.mem_cons] at hc
  rcases hc with hc | rfl | hc
  · exact hx c hc
  · exact (headMark_apart he).2
  · exact hy c hc

theorem storeFree_scanned (h : ¬ d.storeFunction.toList <:+: body) :
    ∀ t ∈ scanned d body, ¬ d.storeFunction.toList <:+: t := by
  have hne : d.storeFunction.toList ≠ [] := by cases d <;> decide
  refine scanned_induct (P := fun t => ¬ d.storeFunction.toList <:+: t) ?_
    (fun x y e he hx hy hi => ?_) ?_ (fun x t ht hx hi => hx (hi.trans ht))
    (fun x y hcut hx hi => hx (hcut.isInfix isIdent_storeFunction hi)) h
  · exact fun hi => hne (List.infix_nil.1 hi)
  · have hident := isIdent_of_apart (headMark_apart he).1
    exact (infix_seam isIdent_storeFunction hne hident hi).elim hx hy
  · cases d <;> decide

theorem storeFree_shared (h : ¬ d.storeFunction.toList <:+: body) :
    ∀ t ∈ (hoistShared d body).2, ¬ d.storeFunction.toList <:+: t := fun _ ht hi =>
  h (hi.trans (isInfix_of_mem_spans ht))

/-- Every assignment that is found in a text of ASCII characters is visible. -/
theorem visible_of_ascii {n : List Char} {b : Option Char} (hb : ∀ c ∈ b, c.toNat < 0x80)
    (hx : ∀ c ∈ x, c.toNat < 0x80) :
    anywhere (assignsHere n) b x = anywhere (usesWith n 2 (·.assign.isSome)) b x := by
  induction x generalizing b with
  | nil => rfl
  | cons c x ih =>
    rw [anywhere, anywhere, ih (by rintro _ ⟨⟩; exact hx c List.mem_cons_self)
      fun e he => hx e (List.mem_cons_of_mem _ he)]
    congr 1
    rw [assignsHere]
    rcases b with _ | k
    · rfl
    cases hu : usesWith n 2 (·.assign.isSome) (some k) (c :: x) with
    | false => rw [Bool.and_false]
    | true =>
      rw [usesWith, Option.any_eq_true] at hu
      obtain ⟨⟨s, rest⟩, ho, -⟩ := hu
      have hk : isIdent k = false := by
        have hjoins := (occurrence?_isUse ho).1
        simp only [joinsName, Option.any_some, Bool.or_eq_false_iff] at hjoins
        exact hjoins.1
      have hk' : ¬ 0x80 ≤ k.toNat := Nat.not_le.2 (hb k rfl)
      simp [atWordStart, isWord, hk, hk']

/-- An image is written to if a piece of the body has a visible assignment to it. -/
theorem hasStore_of_assigns (hps : Named params) (ha : (a, .image readWrite) ∈ params)
    (h : (scanned d body).any (anywhere (assignsHere a.toList) none) = true) :
    hasStore d a.toList (Parts.ofBody d params body).allText = true := by
  have hn : isIdentifier a.toList = true := hps.identifier _ ha
  obtain ⟨t, ht, hassign⟩ := List.any_eq_true.1 h
  rw [hasStore_eq]
  refine anywhere_mono (fun _ _ => storesHere_of_storeCall hn) ?_
  rw [anywhere_allText (glimpses_storeCall hn), Bool.or_eq_true]
  exact .inr (List.any_eq_true.2 ⟨t, ht, storeCall_phraseUses hps ha hassign⟩)

/-- It is not written to if none has, unless the name of the store function stands in the body or
comes about when the markers are taken out. -/
theorem not_hasStore_of_assigns (hps : Named params) (ha : (a, .image readWrite) ∈ params)
    (hstore : ¬ d.storeFunction.toList <:+: body) (hmarkers : ∀ t ∈ scanned d body, MarkersApart t)
    (h : (scanned d body).any (anywhere (assignsHere a.toList) none) = false) :
    hasStore d a.toList (Parts.ofBody d params body).allText = false := by
  have hn : isIdentifier a.toList = true := hps.identifier _ ha
  have hfree : ∀ t, ¬ d.storeFunction.toList <:+: t →
      anywhere (Body.stray d (paramNames params) a.toList) none t = false := fun t ht => by
    cases hs : anywhere (Body.stray d (paramNames params) a.toList) none t with
    | false => rfl
    | true => exact absurd (isInfix_of_stray hs) ht
  rw [hasStore_eq]
  refine eq_false_of_imp (anywhere_mono fun _ _ => stray_of_storesHere hps.names hn) ?_
  rw [anywhere_allText (glimpses_stray hps.names), Bool.or_eq_false_iff, List.any_eq_false,
    List.any_eq_false]
  refine ⟨fun t ht => by rw [hfree t (storeFree_shared hstore t ht)]; decide, fun t ht => ?_⟩
  rw [stray_phraseUses hps ha ⟨hmarkers t ht, hfree t (storeFree_scanned hstore t ht)⟩
    (by simpa using List.any_eq_false.1 h t ht)]
  decide

/-- What is taken for a store to an image is what becomes of the visible assignments to it. -/
theorem hasStore_ofBody (hps : Named params) (ha : (a, .image readWrite) ∈ params)
    (hstore : ¬ d.storeFunction.toList <:+: body)
    (hmarkers : ∀ t ∈ scanned d body, MarkersApart t) :
    hasStore d a.toList (Parts.ofBody d params body).allText =
      (scanned d body).any (anywhere (assignsHere a.toList) none) := by
  cases h : (scanned d body).any (anywhere (assignsHere a.toList) none) with
  | false => exact not_hasStore_of_assigns hps ha hstore hmarkers h
  | true => exact hasStore_of_assigns hps ha h

theorem assigns_eq_reported {n : List Char} (hn : isIdentifier n = true)
    (hascii : ∀ c ∈ body, c.toNat < 0x80) :
    (scanned d body).any (anywhere (assignsHere n) none) =
      (scanned d body).any fun t => (reported n 2 none t).any (·.assign.isSome) := by
  rw [Bool.eq_iff_iff, List.any_eq_true, List.any_eq_true]
  refine exists_congr fun t => and_congr_right fun ht => ?_
  rw [any_reported hn, visible_of_ascii (by simp) (ascii_scanned hascii t ht)]

/-- The access of an image for which none is declared is what its assignments say, wherever in the
body a pass finds them. -/
theorem inferAccess_ofBody (d : Dialect) (params : List (String × Form))
    (hid : ∀ p ∈ params, isIdentifier p.1.toList = true) (hnd : (params.map (·.1)).Nodup)
    (a : String) (readWrite : Bool) (ha : (a, .image readWrite) ∈ params) (body : List Char)
    (hascii : ∀ c ∈ body, c.toNat < 0x80) :
    ((∃ t ∈ scanned d body, ∃ s ∈ reported a.toList 2 none t, s.assign.isSome = true) →
      inferAccess d none a.toList (Parts.ofBody d params body).allText = .write) ∧
    ((∀ t ∈ scanned d body, MarkersApart t ∧ ∀ s ∈ reported a.toList 2 none t, s.assign = none) →
      ¬ d.storeFunction.toList <:+: body →
      inferAccess d none a.toList (Parts.ofBody d params body).allText = .read) := by
  have hps : Named params := ⟨hid, hnd⟩
  have hassigns := assigns_eq_reported (d := d) (hid _ ha) hascii
  constructor
  · rintro ⟨t, ht, s, hs, hassign⟩
    have hstore := hasStore_of_assigns hps ha (hassigns.trans
      (List.any_eq_true.2 ⟨t, ht, List.any_eq_true.2 ⟨s, hs, hassign⟩⟩))
    simp [inferAccess, hstore]
  · intro hall hfree
    have hnone := hassigns.trans (List.any_eq_false.2 fun t ht hany => by
      obtain ⟨s, hs, hassign⟩ := List.any_eq_true.1 hany
      rw [(hall t ht).2 s hs] at hassign
      cases hassign)
    have hstore := not_hasStore_of_assigns hps ha hfree (fun t ht => (hall t ht).1) hnone
    simp [inferAccess, hstore]

theorem inferAccess_ofBody_nested :
    inferAccess .glsl none "p".toList (Parts.ofBody .glsl [("p", .image false), ("q", .image false)]
      "function f(i: i32) { q[p[0][i] += v][1]; }".toList).allText = .write ∧
    inferAccess .glsl none "q".toList (Parts.ofBody .glsl [("p", .image false), ("q", .image false)]
      "function f(i: i32) { q[p[0][i] += v][1]; }".toList).allText = .read := by
  have hascii := ascii_of_all (x := "function f(i: i32) { q[p[0][i] += v][1]; }".toList) (by decide)
  have hinfer := inferAccess_ofBody .glsl [("p", .image false), ("q", .image false)] (by decide)
    (by decide)
  exact ⟨(hinfer "p" false (by decide) _ hascii).1 (by decide +kernel),
    (hinfer "q" false (by decide) _ hascii).2 (by decide +kernel) (by decide +kernel)⟩

/-- A body in which no marker stands, but one comes about between the texts around a constant. -/
def joined : List Char :=
  ("textuthis.const a = 1;uniform.reStore(p, vec2<i32>(0, 0), " ++
    "vec4<f32>(1.0, 1.0, 1.0, 1.0));").toList

/-- When that marker is taken out, there is a store where the body has neither an assignment nor a
name of the store function. -/
theorem inferAccess_joined :
    (∀ c ∈ joined, c.toNat < 0x80) ∧
    (∀ t ∈ scanned .wgsl joined, ∀ s ∈ reported "p".toList 2 none t, s.assign = none) ∧
    ¬ Dialect.wgsl.storeFunction.toList <:+: joined ∧ ¬ uniformMarker <:+: joined ∧
    inferAccess .wgsl none "p".toList (Parts.ofBody .wgsl [("p", .image false)] joined).allText =
      .write := by
  exact ⟨ascii_of_all (by decide +kernel), by decide +kernel⟩

end Bodies

end ComputeKernel.Body
