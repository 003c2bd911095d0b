import ComputeKernel.Proofs.Markers
import ComputeKernel.Proofs.Exchange
import ComputeKernel.Proofs.Nesting

/-!
# Completeness of the passes

After the pass for a parameter no subscript of it is left in a balanced text
(`anywhere_subscripted_own`): a bracket after the name is closed, so a use is read there, and what
is made of a use has no subscript but those in its parts. No other pass brings a subscript about
(`anywhere_subscripted_of_pass`), and a text without subscripts stays as it is
(`substituteFrom_unused`). The passes of one kind together are a pass again (`pass_images`,
`pass_buffers`), so they keep a text balanced and treat what stands before a `;` apart from what
stands after it; the uniform markers are taken out on either side of it (`dropMarkers_append`).

A pass counts levels without a bound. On a text of fewer than `2 ^ 31` characters it is the pass of
a counter of 32 bits (`ByOffset.substitute?_of_lt`).
-/

namespace ComputeKernel.Body

open Text

section Subscripts

variable {n name : List Char} {m max : Nat} {f : Subscript → List Char} {b : Option Char}
  {c e : Char} {l : Nat} {d : Dialect} {u x y z r cs : List Char} {s : Subscript}

/-- Whether `n` stands at a place as a name of its own, with a bracket after it. -/
def subscripted (n : List Char) (b : Option Char) (cs : List Char) : Bool :=
  (after? n cs).any fun r =>
    !(joinsName b || r.head?.any isIdent) && (trimStart r).head? == some '['

/-- A text with a subscript of `n` in it: the name with a bracket after it, where it is not part of
a longer name and not a member of something else. -/
def HasSubscript (n x : List Char) : Prop :=
  ∃ u v, x = u ++ (n ++ v) ∧ joinsName u.getLast? = false ∧ v.head?.any isIdent = false ∧
    (trimStart v).head? = some '['

theorem anywhere_subscripted (hn : isIdentifier n = true) (h : HasSubscript n x) :
    anywhere (subscripted n) none x = true := by
  obtain ⟨u, v, rfl, hu, hv, hopen⟩ := h
  refine anywhere_prepend ?_
  have hplace : subscripted n (u.getLast?.or none) (n ++ v) = true := by
    rw [Option.or_none, subscripted, after?_self, Option.any_some, hu, hv, hopen]
    rfl
  obtain ⟨c, ns, rfl, -⟩ := identifier_cons hn
  rw [List.cons_append] at hplace ⊢
  rw [anywhere, hplace, Bool.true_or]

theorem subscripted_eq (h : subscripted n b cs = true) :
    joinsName b = false ∧ ∃ w r, Blank w ∧ cs = n ++ (w ++ '[' :: r) := by
  obtain ⟨v, hv, h⟩ := (Option.any_eq_true _ _).1 h
  simp only [Bool.and_eq_true, Bool.not_eq_true', Bool.or_eq_false_iff, beq_iff_eq] at h
  obtain ⟨w, hw, hvw, -⟩ := exists_trimStart v
  obtain ⟨r, hr⟩ : ∃ r, trimStart v = '[' :: r := by
    cases ht : trimStart v with
    | nil => simp [ht] at h
    | cons c r =>
      rw [ht, List.head?_cons] at h
      exact ⟨r, by rw [Option.some.inj h.2]⟩
  exact ⟨h.1.1, w, r, hw, by rw [← hr, ← hvw, after?_eq_some hv]⟩

theorem subscripted_of_joins (h : joinsName b = true) : subscripted n b cs = false := by
  cases hs : subscripted n b cs with
  | false => rfl
  | true =>
    rw [(subscripted_eq hs).1] at h
    cases h

theorem subscripted_word (hn : isIdentifier n = true) (hu : ∀ c ∈ u, isIdent c = true)
    (he : isIdent e = false) (hx : isBlank e = false ∧ e ≠ '[') :
    subscripted n b (u ++ e :: y) = false := by
  cases hs : subscripted n b (u ++ e :: y) with
  | false => rfl
  | true =>
    obtain ⟨-, w, r, hw, h⟩ := subscripted_eq hs
    rcases (word_unique (fun _ => ident_of_mem hn) hu hw he h.symm).2 with hb | hb
    · rw [hx.1] at hb
      cases hb
    · exact absurd hb hx.2

/-- A subscript is not seen over a seam. -/
theorem subscripted_append (hn : isIdentifier n = true) (hy : Seam y) :
    subscripted n b (x ++ y) = subscripted n b x := by
  unfold subscripted
  rw [after?_append (fun _ => ident_of_mem hn) hy, Option.any_map]
  congr 1
  funext r
  have hident : (r ++ y).head?.any isIdent = r.head?.any isIdent := by
    cases r with
    | nil => exact hy.ident
    | cons c r => rfl
  have hopen : ((trimStart (r ++ y)).head? == some '[') = ((trimStart r).head? == some '[') := by
    cases ht : trimStart r with
    | nil =>
      rw [trimStart_append_of_nil ht]
      simpa using hy.index
    | cons c t => rw [trimStart_append_of_cons ht]; rfl
  rw [hident, hopen]

theorem finds_subscripted (hn : isIdentifier n = true) : Finds (subscripted n) where
  nil {b} := by
    obtain ⟨c, ns, rfl, -⟩ := identifier_cons hn
    rfl
  first {b c r} h := by
    obtain ⟨d, ns, rfl, hd, -⟩ := identifier_cons hn
    obtain ⟨-, w, t, -, h⟩ := subscripted_eq h
    exact (List.cons.inj h).1 ▸ hd
  inside hc _ _ _ := subscripted_of_joins (joinsName_of_ident hc)
  near hc := by
    unfold subscripted
    rw [joinsName_of_apart hc]
    rfl
  stop _ hk := subscripted_append hn (seam_stop hk)
  blank hw := subscripted_append hn (seam_blank hw)

theorem closes_subscripted (hn : isIdentifier n = true) : Closes (subscripted n) :=
  fun _ _ _ hz => subscripted_append hn (seam_closes hz)

theorem spares_subscripted (hn : isIdentifier n = true) (hm : isIdentifier name = true) :
    Spares d name (subscripted n) where
  word hu he := subscripted_word hn (ident_of_mem_phraseWords hu) (callMark_apart he).1
    (callMark_apart he).2
  name := subscripted_word hn (fun _ => ident_of_mem hm) rfl ⟨rfl, by decide⟩

theorem sparesMember_subscripted : SparesMember (subscripted n) where
  inside hc _ := subscripted_of_joins (joinsName_of_ident hc)
  data := subscripted_of_joins rfl

/-- Where no use of its own name starts, a pass neither makes nor removes a subscript. -/
theorem subscripted_copy (hf : Quiet name f) (hn : isIdentifier n = true)
    (ho : occurrence? name max b (c :: r) = none) :
    subscripted n b (c :: substituteFrom name max f (some c) r) = subscripted n b (c :: r) := by
  obtain ⟨d, ns, rfl, hd, hns⟩ := identifier_cons hn
  unfold subscripted
  rw [after?, after?]
  by_cases hdc : d = c
  · subst hdc
    rw [if_pos rfl, if_pos rfl,
      after?_substituteFrom hf.name (joinsName_of_ident (isIdent_of_start hd)) hns, Option.any_map]
    have hjoin : joinsName (ns.getLast?.or (some d)) = true := by
      cases hl : ns.getLast? with
      | none => exact joinsName_of_ident (isIdent_of_start hd)
      | some e => exact joinsName_of_ident (hns e (List.mem_of_getLast? hl))
    congr 1
    funext z
    rw [head?_substituteFrom_joined hf.name hjoin]
    cases hz : z.head?.any isIdent with
    | true => simp
    | false =>
      rw [substituteFrom_fresh hf.name hz, trimStart_substituteFrom hf]
      congr 1
      rw [Bool.eq_iff_iff, beq_iff_eq, beq_iff_eq]
      cases trimStart z with
      | nil => rw [substituteFrom_nil]
      | cons e t =>
        constructor
        · intro h
          obtain ⟨y, hy⟩ : ∃ y, substituteFrom name max f none (e :: t) = '[' :: y :=
            List.head?_eq_some_iff.1 h
          obtain ⟨t', ht, -⟩ := substituteFrom_eq_cons hf.name hf.start (.inr rfl) hy
          rw [ht]
          rfl
        · intro h
          rw [Option.some.inj h, substituteFrom_cons hf.name rfl]
          rfl
  · rw [if_neg hdc, if_neg hdc]

end Subscripts

section Passes

variable {n name : List Char} {m max : Nat} {f : Subscript → List Char} {b : Option Char} {l : Nat}
  {d : Dialect} {readWrite : Bool} {x cs : List Char}

/-- In a text that goes down to level 0 a bracket after a name is closed, so it is read. -/
theorem occurrence?_of_subscripted (hn : isIdentifier n = true) (hl : level? false l cs = some 0)
    (h : subscripted n b cs = true) : occurrence? n (m + 1) b cs ≠ none := by
  obtain ⟨hb, w, r, hw, rfl⟩ := subscripted_eq h
  rw [level?_append, level?_name hn, Option.bind_some, level?_append, level?_blank hw,
    Option.bind_some, level?_open_append rfl] at hl
  obtain ⟨inside, k, rest, hk, rfl, hi, -⟩ := exists_splitClose hl (Nat.succ_pos l)
  rw [occurrence?_name hn hb (head?_ident_blank hw rfl) (indexGroups_cons hw hi hk)]
  exact Option.some_ne_none _

theorem hasSubscript_of_occurrence {u : List Char} {s : Subscript} {rest : List Char}
    (h : occurrence? n max u.getLast? x = some (s, rest)) : HasSubscript n (u ++ x) := by
  obtain ⟨hjoin, hu⟩ := occurrence?_isUse h
  obtain ⟨w, r, hw, rfl⟩ := hu.front
  refine ⟨u, w ++ '[' :: r, rfl, hjoin, head?_ident_blank hw rfl, ?_⟩
  rw [trimStart_append hw]
  rfl

/-- A text without a subscript of a name is left as it is. -/
theorem substituteFrom_unused (hn : isIdentifier n = true) {u : List Char}
    (h : ¬ HasSubscript n (u ++ x)) : substituteFrom n max f u.getLast? x = x := by
  induction x generalizing u with
  | nil => exact substituteFrom_nil
  | cons c r ih =>
    rcases ho : occurrence? n max u.getLast? (c :: r) with _ | ⟨s, rest⟩
    · have hr : ¬ HasSubscript n ((u ++ [c]) ++ r) := by simpa using h
      have hcopy := ih hr
      rw [List.getLast?_concat] at hcopy
      rw [substituteFrom_copy hn ho, hcopy]
    · exact absurd (hasSubscript_of_occurrence ho) h

/-- What is made of a use does not start with a subscript. -/
def NoSubscript (f : Subscript → List Char) : Prop :=
  ∀ n b s y, isIdentifier n = true → subscripted n b (f s ++ y) = false

theorem noSubscript_image : NoSubscript (phraseImage d name readWrite) := by
  intro n b s y hn
  rw [phraseImage_eq, call, List.append_assoc, List.cons_append]
  exact subscripted_word hn (fun _ => ident_of_mem (isIdentifier_function s)) rfl ⟨rfl, by decide⟩

theorem noSubscript_buffer (hm : isIdentifier name = true) :
    NoSubscript (phraseBuffer .glsl name) := by
  intro n b s y hn
  rw [phraseBuffer_eq, List.append_assoc, List.cons_append]
  exact subscripted_word hn (fun _ => ident_of_mem hm) rfl ⟨rfl, by decide⟩

/-- No pass brings a subscript about. -/
theorem anywhere_subscripted_of_pass (hn : isIdentifier n = true) (hf : Quiet name f)
    (hr : Renders (subscripted n) max f) (hno : NoSubscript f)
    (h : anywhere (subscripted n) b (substituteFrom name max f b x) = true) :
    anywhere (subscripted n) b x = true := by
  refine anywhere_of_pass hf (finds_subscripted hn) hr (fun b c r ho h => ?_)
    (fun b cs s rest _ h => ?_) h
  · rwa [subscripted_copy hf hn ho] at h
  · rw [hno n b _ _ hn] at h
    cases h

/-- The pass for a name leaves no subscript of it in a balanced text. -/
theorem anywhere_subscripted_own (hf : Quiet n f) (hr : Renders (subscripted n) (m + 1) f)
    (hno : NoSubscript f) (hx : level? false l x = some 0) :
    anywhere (subscripted n) b (substituteFrom n (m + 1) f b x) = false := by
  refine substituteFrom_induct (f := f) hf.name
    (P := fun b x y => ∀ l, level? false l x = some 0 → anywhere (subscripted n) b y = false)
    (fun _ _ _ => rfl) (fun b c r ho ih l hl => ?_) (fun b cs s rest ho hi ha ih l hl => ?_)
    b x l hx
  · have hhere : subscripted n b (c :: r) = false := by
      cases hs : subscripted n b (c :: r) with
      | false => rfl
      | true => exact absurd ho (occurrence?_of_subscripted hf.name hl hs)
    rw [level?_cons] at hl
    obtain ⟨l', -, hl⟩ := Option.bind_eq_some_iff.1 hl
    rw [anywhere, subscripted_copy hf hf.name ho, hhere, ih l' hl]
    rfl
  · have hu := (occurrence?_isUse ho).2
    obtain ⟨hw, hrest⟩ := hu.level hf.name hl
    have hlen : (s.map (substituteFrom n (m + 1) f none)).indices.length ≤ m + 1 := by
      rw [length_map_indices]
      exact occurrence?_indices ho
    have hparts : (s.map (substituteFrom n (m + 1) f none)).anyPart (subscripted n) = false := by
      obtain ⟨hi', ha'⟩ := s.forall_map (P := fun i => anywhere (subscripted n) none i = false)
        (Q := fun v => anywhere (subscripted n) none v = false)
        (fun i hm => hi i hm 0 (hw.indices i hm)) fun a hm => ha a hm 0 (hw.value a hm).balanced
      rw [Subscript.anyPart, Bool.or_eq_false_iff, List.any_eq_false, Option.any_eq_false]
      exact ⟨fun i hm => by simp [hi' i hm], fun a hm => by simp [ha' a hm]⟩
    rw [hr b _ _ (hu.sits.map hf) hlen, hno n b _ _ hf.name, hparts, ih l hrest]
    rfl

end Passes

section Parameters

variable {params ps : List (String × Form)} {d : Dialect} {p q : String × Form}
  {n x y z : List Char} {e : Char}

theorem renders_subscripted_image {name : List Char} {readWrite : Bool} (hn : isIdentifier n = true)
    (hm : isIdentifier name = true) : Renders (subscripted n) 2 (phraseImage d name readWrite) :=
  renders_image hm (finds_subscripted hn) (closes_subscripted hn) (spares_subscripted hn hm)

theorem renders_subscripted_buffer {name : List Char} (hn : isIdentifier n = true)
    (hm : isIdentifier name = true) : Renders (subscripted n) 1 (phraseBuffer .glsl name) :=
  renders_buffer hm (finds_subscripted hn) sparesMember_subscripted

/-- A text without a subscript of `n`. -/
def Settled (n x : List Char) : Prop := anywhere (subscripted n) none x = false

theorem settled_of_pass {name : List Char} {max : Nat} {f : Subscript → List Char}
    (hn : isIdentifier n = true) (hf : Quiet name f) (hr : Renders (subscripted n) max f)
    (hno : NoSubscript f) (hx : Settled n x) : Settled n (substitute name max f x) := by
  cases h : anywhere (subscripted n) none (substitute name max f x) with
  | false => exact h
  | true =>
    rw [Settled, anywhere_subscripted_of_pass hn hf hr hno h] at hx
    cases hx

theorem Settled.phraseIfImage (hn : isIdentifier n = true) (hp : isIdentifier p.1.toList = true)
    (hx : Settled n x) : Settled n (phraseIfImage d x p) := by
  unfold Body.phraseIfImage
  cases p.2 with
  | buffer => exact hx
  | image readWrite =>
    exact settled_of_pass hn (quiet_image hp) (renders_subscripted_image hn hp) noSubscript_image hx

theorem Settled.phraseIfBuffer (hn : isIdentifier n = true) (hp : isIdentifier p.1.toList = true)
    (hx : Settled n x) : Settled n (phraseIfBuffer .glsl x p) := by
  unfold Body.phraseIfBuffer
  cases p.2 with
  | image readWrite => exact hx
  | buffer =>
    exact settled_of_pass hn (quiet_buffer hp) (renders_subscripted_buffer hn hp)
      (noSubscript_buffer hp) hx

theorem settled_phraseIfImage (hp : isIdentifier p.1.toList = true) (hi : p.2 ≠ .buffer)
    (hx : Balanced x) : Settled p.1.toList (phraseIfImage d x p) := by
  unfold phraseIfImage
  cases hf : p.2 with
  | buffer => exact absurd hf hi
  | image readWrite =>
    exact anywhere_subscripted_own (quiet_image hp) (renders_subscripted_image hp hp)
      noSubscript_image hx

theorem settled_phraseIfBuffer (hp : isIdentifier p.1.toList = true) (hi : p.2 = .buffer)
    (hx : Balanced x) : Settled p.1.toList (phraseIfBuffer .glsl x p) := by
  unfold phraseIfBuffer
  rw [hi]
  exact anywhere_subscripted_own (quiet_buffer hp) (renders_subscripted_buffer hp hp)
    (noSubscript_buffer hp) hx

theorem phraseIfImage_unused (hp : isIdentifier p.1.toList = true)
    (h : p.2 ≠ .buffer → ¬ HasSubscript p.1.toList x) : phraseIfImage d x p = x := by
  unfold phraseIfImage
  cases hf : p.2 with
  | buffer => rfl
  | image readWrite => exact substituteFrom_unused hp (u := []) (h (by simp [hf]))

theorem phraseIfBuffer_unused (hp : isIdentifier p.1.toList = true)
    (h : ¬ HasSubscript p.1.toList x) : phraseIfBuffer d x p = x := by
  unfold phraseIfBuffer
  cases p.2 with
  | image readWrite => rfl
  | buffer => exact substituteFrom_unused hp (u := []) h

theorem matched_phraseIfImage (hp : isIdentifier p.1.toList = true) (hx : Matched x) :
    Matched (phraseIfImage d x p) := by
  unfold phraseIfImage
  cases p.2 with
  | buffer => exact hx
  | image readWrite =>
    exact matched_substitute hp (phrasing_image hp).level (keepsKinds_image hp) hx

theorem matched_phraseIfBuffer (hp : isIdentifier p.1.toList = true) (hx : Matched x) :
    Matched (phraseIfBuffer .glsl x p) := by
  unfold phraseIfBuffer
  cases p.2 with
  | image readWrite => exact hx
  | buffer => exact matched_substitute hp (phrasing_buffer hp).level (keepsKinds_buffer hp) hx

/-- A property that one step of a fold brings about and every step keeps holds after the fold. -/
theorem foldl_reaches {step : List Char → String × Form → List Char} {P Q : List Char → Prop}
    (hP : ∀ p ∈ ps, ∀ x, P x → P (step x p)) (hQ : ∀ p ∈ ps, ∀ x, Q x → Q (step x p)) (hq : q ∈ ps)
    (hset : ∀ x, P x → Q (step x q)) (hx : P x) : Q (ps.foldl step x) := by
  induction ps generalizing x with
  | nil => cases hq
  | cons p ps ih =>
    have hQ' : ∀ p ∈ ps, ∀ x, Q x → Q (step x p) := fun p hp => hQ p (List.mem_cons_of_mem _ hp)
    rcases List.mem_cons.1 hq with rfl | hq
    · exact List.foldlRecOn ps step (hset x hx) fun x hx p hp => hQ' p hp x hx
    · exact ih (fun p hp => hP p (List.mem_cons_of_mem _ hp)) hQ' hq (hP p List.mem_cons_self x hx)

theorem foldl_stays {step : List Char → String × Form → List Char} (h : ∀ p ∈ ps, step x p = x) :
    ps.foldl step x = x := by
  induction ps with
  | nil => rfl
  | cons p ps ih =>
    rw [List.foldl_cons, h p List.mem_cons_self]
    exact ih fun q hq => h q (List.mem_cons_of_mem _ hq)

theorem pass_phraseIfImage {ns : List (List Char)} (hp : isIdentifier p.1.toList = true)
    (hns : ∀ n ∈ ns, isIdentifier n = true) : Pass ns (phraseIfImage d · p) := by
  unfold phraseIfImage
  cases p.2 with
  | buffer => exact Pass.id
  | image readWrite => exact pass_substitute hp hns (phrasing_image hp) (.inl endsTight_image)

theorem pass_phraseIfBuffer {ns : List (List Char)} (hp : isIdentifier p.1.toList = true)
    (hns : ∀ n ∈ ns, isIdentifier n = true) (hmem : p.2 = .buffer → p.1.toList ∈ ns) :
    Pass ns (phraseIfBuffer .glsl · p) := by
  unfold phraseIfBuffer
  cases hf : p.2 with
  | image readWrite => exact Pass.id
  | buffer => exact pass_substitute hp hns (phrasing_buffer hp) (.inr ⟨rfl, hmem hf⟩)

theorem Pass.foldl {ns : List (List Char)} {step : List Char → String × Form → List Char}
    (hp : ∀ p ∈ ps, Pass ns (step · p)) : Pass ns (ps.foldl step ·) := by
  induction ps with
  | nil => exact Pass.id
  | cons p ps ih =>
    exact (ih fun q hq => hp q (List.mem_cons_of_mem _ hq)).comp (hp p List.mem_cons_self)

theorem isIdentifier_bufferNames (hid : ∀ p ∈ params, isIdentifier p.1.toList = true) :
    ∀ n ∈ bufferNames params, isIdentifier n = true := by
  intro n hn
  simp only [bufferNames, List.mem_map, List.mem_filter] at hn
  obtain ⟨p, hp, rfl⟩ := hn
  exact hid p hp.1

theorem pass_images (hid : ∀ p ∈ params, isIdentifier p.1.toList = true) :
    Pass (bufferNames params) (params.foldl (phraseIfImage d) ·) :=
  Pass.foldl fun p hp => pass_phraseIfImage (hid p hp) (isIdentifier_bufferNames hid)

theorem pass_buffers (hid : ∀ p ∈ params, isIdentifier p.1.toList = true) :
    Pass (bufferNames params) (phraseBuffers d params) := by
  cases d with
  | wgsl => exact Pass.id
  | glsl =>
    exact Pass.foldl fun p hp => pass_phraseIfBuffer (hid p hp) (isIdentifier_bufferNames hid)
      fun hb => List.mem_map_of_mem (List.mem_filter.2 ⟨hp, by simp [hb]⟩)

/-- The markers before and after a character that belongs to none are taken out one by one. -/
theorem dropMarkers_append (he : isIdent e = false) (hd : e ≠ '.') :
    dropMarkers (x ++ e :: z) = dropMarkers x ++ e :: dropMarkers z := by
  have hapart : ∀ c ∈ (e :: z).head?, c ∉ uniformMarker := by
    rintro c ⟨⟩ hm
    have := joinsName_of_mem_marker hm
    simp [joinsName, he, hd] at this
  refine marker_induct
    (P := fun _ x => dropMarkers (x ++ e :: z) = dropMarkers x ++ e :: dropMarkers z) (fun _ => ?_)
    (fun _ c r hc ih => ?_) (fun _ r ih => ?_) none x
  · rw [dropMarkers_nil]
    exact dropMarkers_word (u := []) (by simp) he hd
  · have hc' : uniformMarker.isPrefixOf (c :: (r ++ e :: z)) = false := by
      rw [← List.cons_append, isPrefixOf_append hapart, hc]
    rw [List.cons_append, dropMarkers_cons hc', dropMarkers_cons hc, ih]
    rfl
  · rw [List.append_assoc, dropMarkers_marker, dropMarkers_marker, ih]

end Parameters

section Main

variable {params : List (String × Form)} {d : Dialect} {p : String × Form} {x : List Char}

/-- The passes for images leave no subscript of an image. -/
theorem settled_images (hid : ∀ p ∈ params, isIdentifier p.1.toList = true) (hp : p ∈ params)
    (hi : p.2 ≠ .buffer) (hx : Balanced x) :
    Settled p.1.toList (params.foldl (phraseIfImage d) x) :=
  foldl_reaches (P := Balanced) (fun q hq _ => balanced_phraseIfImage (hid q hq))
    (fun q hq _ => Settled.phraseIfImage (hid p hp) (hid q hq)) hp
    (fun _ => settled_phraseIfImage (hid p hp) hi) hx

theorem settled_buffers (hid : ∀ p ∈ params, isIdentifier p.1.toList = true) (hp : p ∈ params)
    (hb : p.2 = .buffer) (hx : Balanced x) :
    Settled p.1.toList (params.foldl (phraseIfBuffer .glsl) x) :=
  foldl_reaches (P := Balanced)
    (fun q hq _ hx => (pass_phraseIfBuffer (hid q hq) (isIdentifier_bufferNames hid)
      fun hb => List.mem_map_of_mem (List.mem_filter.2 ⟨hq, by simp [hb]⟩)).balanced hx)
    (fun q hq _ => Settled.phraseIfBuffer (hid p hp) (hid q hq)) hp
    (fun _ => settled_phraseIfBuffer (hid p hp) hb) hx

theorem Settled.phraseBuffers (hid : ∀ p ∈ params, isIdentifier p.1.toList = true) {n : List Char}
    (hn : isIdentifier n = true) (hx : Settled n x) : Settled n (phraseBuffers d params x) := by
  cases d with
  | wgsl => exact hx
  | glsl =>
    exact List.foldlRecOn params _ hx fun _ hx p hp => Settled.phraseIfBuffer hn (hid p hp) hx

theorem matched_phraseBuffers (hid : ∀ p ∈ params, isIdentifier p.1.toList = true)
    (hx : Matched x) : Matched (phraseBuffers d params x) := by
  cases d with
  | wgsl => exact hx
  | glsl => exact List.foldlRecOn params _ hx fun _ hx p hp => matched_phraseIfBuffer (hid p hp) hx

theorem phraseBuffers_unused (hid : ∀ p ∈ params, isIdentifier p.1.toList = true)
    (h : ∀ p ∈ params, d = .glsl → ¬ HasSubscript p.1.toList x) : phraseBuffers d params x = x := by
  cases d with
  | wgsl => rfl
  | glsl =>
    exact foldl_stays fun p hp => phraseIfBuffer_unused (hid p hp) (h p hp rfl)

/-- Without a marker in the text there is none to take out. -/
theorem phraseUses_of_markerFree (hid : ∀ p ∈ params, isIdentifier p.1.toList = true)
    (hm : MarkerFree x) :
    phraseUses d params x = phraseBuffers d params (params.foldl (phraseIfImage d) x) := by
  rw [phraseUses_eq]
  exact ((pass_buffers hid).markers ((pass_images hid).markers hm)).dropMarkers

/-- Phrasing the uses keeps a text balanced, by levels and by kinds of brackets, and leaves no
subscript of a parameter whose uses are phrased. A text without such subscripts stays as it is. -/
theorem phraseUses_complete (d : Dialect) (params : List (String × Form))
    (hid : ∀ p ∈ params, isIdentifier p.1.toList = true) (x : List Char) (hx : Balanced x)
    (hm : MarkerFree x) :
    Balanced (phraseUses d params x) ∧ (Matched x → Matched (phraseUses d params x)) ∧
      (∀ p ∈ params, p.2 ≠ .buffer ∨ d = .glsl →
        ¬ HasSubscript p.1.toList (phraseUses d params x)) ∧
      ((∀ p ∈ params, p.2 ≠ .buffer ∨ d = .glsl → ¬ HasSubscript p.1.toList x) →
        phraseUses d params x = x) := by
  have himages : Balanced (params.foldl (phraseIfImage d) x) := (pass_images hid).balanced hx
  rw [phraseUses_of_markerFree hid hm]
  refine ⟨(pass_buffers hid).balanced himages, fun hmx => ?_, fun p hp hform hsub => ?_,
    fun h => ?_⟩
  · exact matched_phraseBuffers hid
      (List.foldlRecOn params _ hmx fun _ hx p hp => matched_phraseIfImage (hid p hp) hx)
  · have hsettled : Settled p.1.toList
        (phraseBuffers d params (params.foldl (phraseIfImage d) x)) := by
      by_cases hb : p.2 = .buffer
      · obtain rfl : d = .glsl := hform.resolve_left (not_not_intro hb)
        exact settled_buffers hid hp hb himages
      · exact (settled_images hid hp hb hx).phraseBuffers hid (hid p hp)
    rw [Settled, anywhere_subscripted (hid p hp) hsub] at hsettled
    cases hsettled
  · have hfold : params.foldl (phraseIfImage d) x = x :=
      foldl_stays fun p hp => phraseIfImage_unused (hid p hp) fun hb => h p hp (.inl hb)
    rw [hfold]
    exact phraseBuffers_unused hid fun p hp hd => h p hp (.inr hd)

theorem phraseUses_complete_nested :
    let params := [("m", Form.buffer), ("a", .image false)]
    let text := "a [m[0]][a[m[1]][2]] += m[a[0][1].x];".toList
    let phrased := phraseUses .glsl params text
    (Balanced text ∧ MarkerFree text ∧ Matched text ∧ HasSubscript "a".toList text ∧
      HasSubscript "m".toList text) ∧
    Balanced phrased ∧ Matched phrased ∧ ¬ HasSubscript "a".toList phrased ∧
      ¬ HasSubscript "m".toList phrased := by
  intro params text phrased
  have hid : ∀ p ∈ params, isIdentifier p.1.toList = true := by decide
  have hx : Balanced text := by decide
  have hm : MarkerFree text := markerFree_of_count (by decide)
  have hk : Matched text := ⟨hx, by decide⟩
  obtain ⟨hbal, hkinds, hnone, -⟩ := phraseUses_complete .glsl params hid text hx hm
  refine ⟨⟨hx, hm, hk, ⟨[], " [m[0]][a[m[1]][2]] += m[a[0][1].x];".toList, by decide⟩,
    "a [".toList, "[0]][a[m[1]][2]] += m[a[0][1].x];".toList, by decide⟩, hbal, hkinds hk,
    hnone ("a", .image false) (by decide) (.inr rfl), hnone ("m", .buffer) (by decide) (.inr rfl)⟩

/-- A statement is phrased as if it stood alone, whatever follows it. -/
theorem phraseUses_statement (d : Dialect) (params : List (String × Form))
    (hid : ∀ p ∈ params, isIdentifier p.1.toList = true) (s : List Char) (hs : Balanced s)
    (t : List Char) :
    phraseUses d params (s ++ ';' :: t) =
      phraseUses d params s ++ ';' :: phraseUses d params t := by
  rw [phraseUses_eq, phraseUses_eq, phraseUses_eq, (pass_images hid).stop hs rfl,
    (pass_buffers hid).stop ((pass_images hid).balanced hs) rfl]
  exact dropMarkers_append rfl (by decide)

theorem phraseUses_statement_unclosed :
    let params := [("m", Form.buffer), ("a", .image true)]
    let s := "a[m[0]][1] = this.uniform.k(m [2])".toList
    let t := "]a[0]; a[m[1]".toList
    Balanced s ∧ ¬ Balanced t ∧
      phraseUses .glsl params (s ++ ';' :: t) = phraseUses .glsl params s ++ ';' ::
        phraseUses .glsl params t :=
  ⟨by decide, by decide, phraseUses_statement .glsl _ (by decide) _ (by decide) _⟩

end Main

end ComputeKernel.Body
