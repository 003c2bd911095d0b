import ComputeKernel.Proofs.Reading

/-!
# Places of a text

What is looked for in a text is found at a place of it, from the character before the place and the
text from there on. A search that looks for words (`Finds`) goes over a text piece by piece: nothing
is found within a word, and a balanced text in front of a character that stops a value is searched
as if it stood alone. So what is found in a use of a parameter is found in its parts
(`Finds.use`), and so is what is found in the phrase that is made of it (`Finds.phraseImage`,
`Finds.phraseBuffer`).
-/

namespace ComputeKernel.Body

open Text

/-- Whether something is found at some place of a text that follows the character `b`. -/
def anywhere (q : Option Char → List Char → Bool) : Option Char → List Char → Bool
  | _, [] => false
  | b, c :: r => q b (c :: r) || anywhere q (some c) r

section Apart

variable {c : Char}

/-- A character that belongs to no word and does not join with a name. -/
def isApart (c : Char) : Bool := !isWord c && c != '.'

theorem isApart_of_mark (h : isMark c = true) (hd : c ≠ '.') : isApart c = true := by
  cases hw : isWord c with
  | false => simp [isApart, hw, hd]
  | true => simp [not_mark (by decide) hw] at h

theorem isApart_of_stop (h : isStop c = true) : isApart c = true := by
  refine isApart_of_mark (by simp [isMark, h]) ?_
  rintro rfl
  cases h

theorem isApart_of_blank (h : isBlank c = true) : isApart c = true := by
  have hd : c ≠ '.' := (mark_eq_false (not_mark_of_blank h)).2.2.2.2.2
  have hi : isIdent c = false := by
    cases hi : isIdent c with
    | false => rfl
    | true => simp [not_blank_of_ident hi] at h
  -- No range of word characters reaches one of the blanks beyond ASCII.
  have hranges : (wordRanges.all fun r => [(0x85, 0x85), (0xA0, 0xA0), (0x1680, 0x1680),
      (0x2000, 0x200A), (0x2028, 0x2029), (0x202F, 0x202F), (0x205F, 0x205F), (0x3000, 0x3000)].all
        fun k => Nat.blt r.2 k.1 || Nat.blt k.2 r.1) = true := by decide +kernel
  have hblank : c.toNat < 0x80 ∨ ∃ k ∈ [(0x85, 0x85), (0xA0, 0xA0), (0x1680, 0x1680),
      (0x2000, 0x200A), (0x2028, 0x2029), (0x202F, 0x202F), (0x205F, 0x205F), (0x3000, 0x3000)],
      k.1 ≤ c.toNat ∧ c.toNat ≤ k.2 := by
    simp only [isBlank, Bool.or_eq_true, Bool.and_eq_true, decide_eq_true_eq, beq_iff_eq] at h
    simp only [List.mem_cons, List.not_mem_nil, or_false, exists_eq_or_imp, exists_eq_left]
    omega
  have hw : isWord c = false := by
    rw [isWord, hi, Bool.false_or, Bool.and_eq_false_iff, decide_eq_false_iff_not,
      List.any_eq_false]
    rcases hblank with hlow | ⟨k, hk, hin⟩
    · exact .inl (by omega)
    · refine .inr fun r hr => ?_
      have := List.all_eq_true.1 (List.all_eq_true.1 hranges r hr) k hk
      simp only [Bool.or_eq_true, Nat.blt_eq] at this
      simp only [Bool.and_eq_true, decide_eq_true_eq]
      omega
  simp [isApart, hw, hd]

theorem isIdent_of_apart (h : isApart c = true) : isIdent c = false := by
  simp only [isApart, isWord, Bool.and_eq_true, Bool.not_eq_true', Bool.or_eq_false_iff] at h
  exact h.1.1

theorem joinsName_of_apart (h : isApart c = true) : joinsName (some c) = false := by
  have hd : c ≠ '.' := by
    simp only [isApart, Bool.and_eq_true, bne_iff_ne] at h
    exact h.2
  simp [joinsName, isIdent_of_apart h, hd]

theorem atWordStart_of_apart (h : isApart c = true) : atWordStart (some c) = true := by
  simp only [isApart, Bool.and_eq_true] at h
  exact h.1

theorem isWord_of_apart (h : isApart c = true) : isWord c = false := by
  have hw := atWordStart_of_apart h
  rwa [atWordStart, Option.any_some, Bool.not_eq_true'] at hw

theorem not_start_of_ident_false (h : isIdent c = false) : isIdentStart c = false := by
  cases hs : isIdentStart c with
  | false => rfl
  | true => simp [isIdent_of_start hs] at h

end Apart

/-- A search for words, which may also look for what stands between a word and another. -/
structure Finds (q : Option Char → List Char → Bool) : Prop where
  nil {b : Option Char} : q b [] = false
  first {b : Option Char} {c : Char} {r : List Char} (h : q b (c :: r) = true) :
    isIdentStart c = true
  inside {c e : Char} {u y : List Char} (hc : isIdent c = true) (hu : ∀ x ∈ u, isIdent x = true)
    (he : isIdent e = false) (hd : e ≠ '.') : q (some c) (u ++ e :: y) = false
  near {c : Char} {y : List Char} (hc : isApart c = true) : q (some c) y = q none y
  stop {b : Option Char} {l : Nat} {k : Char} {x y : List Char} (hx : level? false l x = some 0)
    (hk : isStop k = true) : q b (x ++ k :: y) = q b x
  blank {b : Option Char} {w x : List Char} (hw : Blank w) : q b (x ++ w) = q b x

/-- A search that does not care for brackets that close what is open at the end of a text. -/
def Closes (q : Option Char → List Char → Bool) : Prop :=
  ∀ b x z, (∀ c ∈ z, isClose c = true) → q b (x ++ z) = q b x

section Search

variable {q : Option Char → List Char → Bool} {b : Option Char} {c e k : Char} {l : Nat}
  {u w x y z : List Char}

theorem anywhere_prepend (h : anywhere q (u.getLast?.or b) x = true) :
    anywhere q b (u ++ x) = true := by
  induction u generalizing b with
  | nil => exact h
  | cons c u ih =>
    rw [List.cons_append, anywhere, ih, Bool.or_true]
    cases u with
    | nil => exact h
    | cons d u =>
      rw [List.getLast?_cons_cons, List.getLast?_cons] at h
      rw [List.getLast?_cons]
      exact h

theorem Finds.plain (hq : Finds q) (hc : isIdentStart c = false) :
    anywhere q b (c :: y) = anywhere q (some c) y := by
  have hno : q b (c :: y) = false := by
    cases h : q b (c :: y) with
    | false => rfl
    | true => simp [hq.first h] at hc
  rw [anywhere, hno, Bool.false_or]

theorem Finds.apart (hq : Finds q) (hc : isApart c = true) :
    anywhere q (some c) y = anywhere q none y := by
  cases y with
  | nil => rfl
  | cons d y => rw [anywhere, anywhere, hq.near hc]

/-- A character that stands apart is passed over. -/
theorem Finds.skip (hq : Finds q) (hc : isApart c = true) :
    anywhere q b (c :: y) = anywhere q none y := by
  rw [hq.plain (not_start_of_ident_false (isIdent_of_apart hc)), hq.apart hc]

theorem Finds.skip_all (hq : Finds q) (hw : ∀ c ∈ w, isApart c = true) :
    anywhere q none (w ++ y) = anywhere q none y := by
  induction w with
  | nil => rfl
  | cons c w ih =>
    rw [List.cons_append, hq.skip (hw c List.mem_cons_self),
      ih fun d hd => hw d (List.mem_cons_of_mem _ hd)]

theorem Finds.skip_blank (hq : Finds q) (hw : Blank w) :
    anywhere q none (w ++ y) = anywhere q none y :=
  hq.skip_all fun c hc => isApart_of_blank (hw c hc)

/-- Something may be found at the start of a word, not within it. -/
theorem Finds.word (hq : Finds q) (hu : ∀ c ∈ u, isIdent c = true) (he : isIdent e = false)
    (hd : e ≠ '.') :
    anywhere q b (u ++ e :: y) = (q b (u ++ e :: y) || anywhere q (some e) y) := by
  have hinside : ∀ (u : List Char) (c : Char), isIdent c = true → (∀ c ∈ u, isIdent c = true) →
      anywhere q (some c) (u ++ e :: y) = anywhere q (some e) y := by
    intro u
    induction u with
    | nil => exact fun c _ _ => hq.plain (not_start_of_ident_false he)
    | cons d u ih =>
      intro c hc hu
      rw [List.cons_append, anywhere, ← List.cons_append, hq.inside hc hu he hd, Bool.false_or]
      exact ih d (hu d List.mem_cons_self) fun x hx => hu x (List.mem_cons_of_mem _ hx)
  cases u with
  | nil => rfl
  | cons c u =>
    rw [List.cons_append, anywhere, hinside u c (hu c List.mem_cons_self)
      fun x hx => hu x (List.mem_cons_of_mem _ hx)]

theorem Finds.append_stop (hq : Finds q) (hx : level? false l x = some 0) (hk : isStop k = true) :
    anywhere q b (x ++ k :: y) = (anywhere q b x || anywhere q none y) := by
  induction x generalizing b l with
  | nil => exact hq.skip (isApart_of_stop hk)
  | cons c x ih =>
    have hc : q b (c :: (x ++ k :: y)) = q b (c :: x) := hq.stop hx hk
    rw [level?_cons] at hx
    obtain ⟨l', -, hx⟩ := Option.bind_eq_some_iff.1 hx
    rw [List.cons_append, anywhere, anywhere, hc, ih hx, Bool.or_assoc]

theorem Finds.append_blank (hq : Finds q) (hw : Blank w) :
    anywhere q b (x ++ w) = anywhere q b x := by
  induction x generalizing b with
  | nil =>
    cases w with
    | nil => rfl
    | cons c w =>
      obtain ⟨hc, hw⟩ := blank_cons.1 hw
      have hskip := hq.skip_blank (y := []) hw
      rw [List.append_nil] at hskip
      exact (hq.skip (isApart_of_blank hc)).trans hskip
  | cons c x ih =>
    have hc : q b (c :: (x ++ w)) = q b (c :: x) := hq.blank (x := c :: x) hw
    rw [List.cons_append, anywhere, anywhere, hc, ih]

theorem Finds.trim (hq : Finds q) : anywhere q none (Text.trim x) = anywhere q none x := by
  obtain ⟨a, w, ha, hw, hx, -⟩ := exists_trim x
  conv =>
    rhs
    rw [hx, List.append_assoc, hq.skip_blank ha, hq.append_blank hw]

theorem Finds.append_closes (hq : Finds q) (hcl : Closes q) (hz : ∀ c ∈ z, isClose c = true) :
    anywhere q b (x ++ z) = anywhere q b x := by
  induction x generalizing b with
  | nil =>
    cases z with
    | nil => rfl
    | cons k z =>
      have hapart : ∀ c ∈ k :: z, isApart c = true := fun c hc =>
        isApart_of_stop (by simp [isStop, hz c hc])
      have hskip := hq.skip_all (y := []) fun c hc => hapart c (List.mem_cons_of_mem _ hc)
      rw [List.append_nil] at hskip
      exact (hq.skip (hapart k List.mem_cons_self)).trans hskip
  | cons c x ih =>
    have hc : q b (c :: (x ++ z)) = q b (c :: x) := hcl b (c :: x) z hz
    rw [List.cons_append, anywhere, anywhere, hc, ih]

/-- Two searches at once. -/
theorem Finds.or {q' : Option Char → List Char → Bool} (hq : Finds q) (hq' : Finds q') :
    Finds fun b cs => q b cs || q' b cs where
  nil {b} := by rw [hq.nil, hq'.nil]; rfl
  first h := (Bool.or_eq_true_iff.1 h).elim hq.first hq'.first
  inside hc hu he hd := by rw [hq.inside hc hu he hd, hq'.inside hc hu he hd]; rfl
  near hc := by rw [hq.near hc, hq'.near hc]
  stop hx hk := by rw [hq.stop hx hk, hq'.stop hx hk]
  blank hw := by rw [hq.blank hw, hq'.blank hw]

end Search

section Uses

variable {q : Option Char → List Char → Bool} {b : Option Char} {name g cs rest z : List Char}
  {is : List (List Char)} {s : Subscript}

/-- Whether something is found in an index or in the value of a use. -/
def Subscript.anyPart (q : Option Char → List Char → Bool) (s : Subscript) : Bool :=
  s.indices.any (anywhere q none) || s.assign.any fun a => anywhere q none a.value

theorem Subscript.anyPart_map {h : List Char → List Char} (s : Subscript)
    (hi : ∀ i ∈ s.indices, anywhere q none (h i) = anywhere q none i)
    (ha : ∀ a ∈ s.assign, anywhere q none (h a.value) = anywhere q none a.value) :
    (s.map h).anyPart q = s.anyPart q := by
  have hindices : (s.map h).indices.any (anywhere q none) = s.indices.any (anywhere q none) := by
    rw [Subscript.map, List.any_map, Bool.eq_iff_iff, List.any_eq_true, List.any_eq_true]
    exact exists_congr fun i => and_congr_right fun hm => by rw [Function.comp_apply, hi i hm]
  unfold Subscript.anyPart
  rw [hindices]
  rcases s with ⟨is, _ | a⟩
  · rfl
  · exact congrArg _ (ha a rfl)

theorem Finds.indices (hq : Finds q) (h : Indices is g) :
    anywhere q none (g ++ z) = (is.any (anywhere q none) || anywhere q none z) := by
  induction h with
  | nil => rfl
  | @cons blanks i k is g hb hi hk _ ih =>
    rw [List.append_assoc, hq.skip_blank hb, List.cons_append, hq.skip (by decide),
      List.append_assoc, List.cons_append, hq.append_stop hi (by simp [isStop, hk]), ih,
      List.any_cons, Bool.or_assoc]

/-- What follows the name in a use is searched from a fresh start. -/
theorem Finds.after_name (hq : Finds q) (hn : isIdentifier name = true) (h : Indices is g)
    (hne : is ≠ []) : anywhere q b (name ++ (g ++ z)) =
      (q b (name ++ (g ++ z)) || (is.any (anywhere q none) || anywhere q none z)) := by
  obtain ⟨e, t, ht, he⟩ : ∃ e t, g ++ z = e :: t ∧ isApart e = true := by
    cases h with
    | nil => exact absurd rfl hne
    | @cons blanks i k is g hb =>
      rcases blanks with _ | ⟨e, w⟩
      · exact ⟨'[', _, rfl, by decide⟩
      · exact ⟨e, _, rfl, isApart_of_blank (hb e List.mem_cons_self)⟩
  have hd : e ≠ '.' := by
    rintro rfl
    revert he
    decide
  rw [← hq.indices h, ht, hq.word (fun _ => ident_of_mem hn) (isIdent_of_apart he) hd, hq.skip he,
    hq.apart he]

theorem Sign.isApart {op : Option Char} {sign : List Char} (h : Sign op sign) :
    ∀ c ∈ sign, isApart c = true := by
  intro c hc
  refine isApart_of_mark ?_ ?_
  · cases h with
    | plain => simpa [isMark] using .inl (.inr (List.mem_singleton.1 hc))
    | @joined d hd =>
      rcases List.mem_cons.1 hc with rfl | hc
      · simp [isMark, hd]
      · rw [List.mem_singleton.1 hc]
        rfl
  · rintro rfl
    have := h.not_start
    cases h with
    | plain => simp at hc
    | @joined d hd =>
      rcases List.mem_cons.1 hc with rfl | hc
      · cases hd
      · simp at hc

/-- What is found in a use is found where it starts, in its parts, or in what follows it. -/
theorem Finds.use (hq : Finds q) (hn : isIdentifier name = true) (h : IsUse name s cs rest) :
    anywhere q b cs = (q b cs || (s.anyPart q || anywhere q none rest)) := by
  cases h with
  | load hi hne => rw [hq.after_name hn hi hne, Subscript.anyPart, Option.any_none, Bool.or_false]
  | @store is g blanks sign v _ op m hi hne hb hs hv hr =>
    rw [hq.after_name hn hi hne, Subscript.anyPart, hq.skip_blank hb, hq.skip_all hs.isApart,
      Option.any_some, hq.trim]
    rcases hr with rfl | ⟨rfl, hr⟩
    · rw [List.append_nil, anywhere, Bool.or_false]
    · rcases rest with _ | ⟨k, rest⟩
      · cases hr
      · have hk : isStop k = true := by simpa using hr
        rw [hq.append_stop (IsValue.balanced hv) hk, hq.skip (isApart_of_stop hk), Bool.or_assoc]

end Uses

section Phrases

variable {q : Option Char → List Char → Bool} {b : Option Char} {d : Dialect} {readWrite : Bool}
  {name inner u v w y z : List Char} {is : List (List Char)} {s : Subscript}

/-- The words of a phrase for an image, but for the name and the first. -/
def phraseWords : Dialect → List (List Char)
  | .wgsl => ["vec2".toList, "i32".toList, "textureLoad".toList]
  | .glsl => ["ivec2".toList, "int".toList, "imageLoad".toList]

/-- A search that finds nothing at the words of a phrase for `name`. -/
structure Spares (d : Dialect) (name : List Char) (q : Option Char → List Char → Bool) : Prop where
  word {u y : List Char} {e : Char} (hu : u ∈ phraseWords d) (he : e ∈ ['(', '<', '>']) :
    q none (u ++ e :: y) = false
  name {y : List Char} : q none (name ++ ',' :: y) = false

theorem callMark_apart (he : e ∈ ['(', '<', '>']) :
    isIdent e = false ∧ isBlank e = false ∧ e ≠ '[' := by
  simp only [List.mem_cons, List.not_mem_nil, or_false] at he
  rcases he with rfl | rfl | rfl <;> decide

theorem ident_of_mem_phraseWords (hu : u ∈ phraseWords d) : ∀ c ∈ u, isIdent c = true := by
  have h : ∀ u ∈ phraseWords d, u.all isIdent = true := by cases d <;> decide
  exact List.all_eq_true.1 (h u hu)

theorem Finds.call (hq : Finds q) (hu : ∀ c ∈ u, isIdent c = true) (hi : Balanced inner) :
    anywhere q b (call u inner ++ y) =
      (q b (Body.call u inner ++ y) || (anywhere q none inner || anywhere q none y)) := by
  have h : anywhere q b (u ++ '(' :: (inner ++ ')' :: y)) =
      (q b (u ++ '(' :: (inner ++ ')' :: y)) || (anywhere q none inner || anywhere q none y)) := by
    rw [hq.word hu rfl (by decide), hq.apart (by decide), hq.append_stop hi rfl]
  simpa [Body.call] using h

theorem Finds.call_word (hq : Finds q) (hs : Spares d name q) (hu : u ∈ phraseWords d)
    (hi : Balanced inner) :
    anywhere q none (Body.call u inner ++ y) = (anywhere q none inner || anywhere q none y) := by
  have hno : q none (Body.call u inner ++ y) = false := by
    simpa [Body.call] using hs.word (y := inner ++ ')' :: y) (e := '(') hu (by decide)
  rw [hq.call (ident_of_mem_phraseWords hu) hi, hno, Bool.false_or]

theorem Finds.comma (hq : Finds q) : anywhere q b (", ".toList ++ y) = anywhere q none y := by
  show anywhere q b (',' :: ' ' :: y) = _
  rw [hq.skip (by decide), hq.skip (by decide)]

theorem Finds.image_name (hq : Finds q) (hs : Spares d name q) (hn : isIdentifier name = true) :
    anywhere q none (name ++ (", ".toList ++ y)) = anywhere q none y := by
  have hno : q none (name ++ (", ".toList ++ y)) = false := hs.name
  have hword : anywhere q none (name ++ (", ".toList ++ y)) =
      (q none (name ++ (", ".toList ++ y)) || anywhere q (some ',') (' ' :: y)) :=
    hq.word (fun _ => ident_of_mem hn) rfl (by decide)
  rw [hword, hno, Bool.false_or, hq.skip (by decide)]

theorem Finds.pair (hq : Finds q) (hs : Spares d name q) (hi : Balanced inner) :
    anywhere q none (Body.call (pairWord d) inner ++ y) =
      (anywhere q none inner || anywhere q none y) := by
  cases d with
  | glsl => exact hq.call_word hs (by decide) hi
  | wgsl =>
    have h : anywhere q none ("vec2".toList ++ '<' :: ("i32".toList ++ '>' :: '(' ::
        (inner ++ ')' :: y))) = (anywhere q none inner || anywhere q none y) := by
      rw [hq.word (List.all_eq_true.1 (by decide)) rfl (by decide), hs.word (by decide) (by decide),
        hq.apart (by decide), Bool.false_or,
        hq.word (List.all_eq_true.1 (by decide)) rfl (by decide),
        hs.word (by decide) (by decide), hq.apart (by decide), Bool.false_or, hq.skip (by decide),
        hq.append_stop hi rfl]
    have hw : pairWord .wgsl = "vec2".toList ++ '<' :: ("i32".toList ++ ['>']) := by decide
    rw [hw]
    simpa [Body.call] using h

theorem coordWord_mem : coordWord d ∈ phraseWords d := by cases d <;> decide

theorem loadWord_mem : loadWord d ∈ phraseWords d := by cases d <;> decide

/-- What is found in a position is found in an index. -/
theorem Finds.place (hq : Finds q) (hs : Spares d name q) (hi : ∀ i ∈ is, Balanced i)
    (hlen : is.length ≤ 2) : anywhere q none ((imageCoords is).text d ++ y) =
      (is.any (anywhere q none) || anywhere q none y) := by
  have htrim : ∀ {i}, i ∈ is → Balanced (Text.trim i) := fun h => level?_trim (hi _ h)
  match is, hlen with
  | [], _ =>
    rw [imageCoords, text_position, hq.pair hs (by decide)]
    rfl
  | [pos], _ =>
    rw [imageCoords, text_position, hq.pair hs (htrim (by simp)), hq.trim]
    · simp
    · simp
  | [row, col], _ =>
    have hcomma : Balanced ", ".toList := by decide
    have hrow : Balanced (Body.call (coordWord d) (Text.trim row)) :=
      level?_call level?_coordWord (htrim (by simp))
    have hcol : Balanced (Body.call (coordWord d) (Text.trim col)) :=
      level?_call level?_coordWord (htrim (by simp))
    have hlast : anywhere q none (Body.call (coordWord d) (Text.trim row)) =
        anywhere q none row := by
      have h := hq.call_word (y := []) hs coordWord_mem (htrim (i := row) (by simp))
      simpa [anywhere, hq.trim] using h
    rw [imageCoords, text_rowCol, hq.pair hs (hcol.append (hcomma.append hrow)),
      hq.call_word hs coordWord_mem (htrim (by simp)), hq.comma, hlast, hq.trim]
    simp [Bool.or_comm]

theorem Finds.loadLevel (hq : Finds q) : anywhere q none (loadLevel d readWrite) = false := by
  cases d with
  | glsl => rfl
  | wgsl =>
    cases readWrite with
    | true => rfl
    | false =>
      have h : Body.loadLevel .wgsl false = ", ".toList ++ ['0'] := by decide
      rw [h, hq.comma, hq.plain (by decide)]
      rfl

theorem balanced_imageArguments (hn : isIdentifier name = true) (hi : ∀ i ∈ is, Balanced i) :
    Balanced (name ++ (", ".toList ++ ((imageCoords is).text d ++ loadLevel d readWrite))) :=
  Balanced.append (level?_name hn) (Balanced.append (by decide)
    ((balanced_text hi).append balanced_loadLevel))

theorem Finds.imageArguments (hq : Finds q) (hs : Spares d name q) (hn : isIdentifier name = true)
    (hi : ∀ i ∈ is, Balanced i) (hlen : is.length ≤ 2) :
    anywhere q none (name ++ (", ".toList ++ ((imageCoords is).text d ++
      Body.loadLevel d readWrite))) = is.any (anywhere q none) := by
  rw [hq.image_name hs hn, hq.place hs hi hlen, hq.loadLevel, Bool.or_false]

/-- What is found in a value is found there whatever closes the phrase after it. -/
theorem Finds.closing (hq : Finds q) (hv : Balanced v ∨ y = [] ∧ Closes q)
    (hz : ∀ c ∈ z, isClose c = true) (hne : z ≠ []) :
    anywhere q b (v ++ (z ++ y)) = (anywhere q b v || anywhere q none y) := by
  rcases hv with hv | ⟨rfl, hcl⟩
  · rcases z with _ | ⟨k, z⟩
    · exact absurd rfl hne
    · have hstop : ∀ c ∈ k :: z, isStop c = true := fun c hc => by simp [isStop, hz c hc]
      rw [List.cons_append, hq.append_stop hv (hstop k List.mem_cons_self), hq.skip_all fun c hc =>
        isApart_of_stop (hstop c (List.mem_cons_of_mem _ hc))]
  · rw [List.append_nil, hq.append_closes hcl hz, anywhere, Bool.or_false]

theorem isIdent_storeFunction : ∀ c ∈ d.storeFunction.toList, isIdent c = true :=
  List.all_eq_true.1 (by cases d <;> decide)

/-- What is found in a phrase for an image is found where it starts, in the parts of the use, or in
what follows. -/
theorem Finds.phraseImage (hq : Finds q) (hs : Spares d name q) (hn : isIdentifier name = true)
    (hi : ∀ i ∈ s.indices, Balanced i) (hlen : s.indices.length ≤ 2)
    (hop : ∀ a ∈ s.assign, ∀ c ∈ a.op, isOperator c = true)
    (hv : ∀ a ∈ s.assign, IsValue a.value ∨ y = [] ∧ Closes q) :
    anywhere q b (phraseImage d name readWrite s ++ y) =
      (q b (Body.phraseImage d name readWrite s ++ y) || (s.anyPart q || anywhere q none y)) := by
  obtain ⟨is, assign⟩ := s
  have hplace := fun y => hq.place (y := y) hs hi hlen
  have hargs : Balanced (name ++ (", ".toList ++ ((imageCoords is).text d ++
      Body.loadLevel d readWrite))) := balanced_imageArguments hn hi
  -- A store goes on with its value, and at the end with brackets that close it.
  have hstore : ∀ z, anywhere q b (d.storeFunction.toList ++ '(' :: (name ++ (", ".toList ++
      ((imageCoords is).text d ++ (", ".toList ++ z))))) = (q b (d.storeFunction.toList ++ '(' ::
        (name ++ (", ".toList ++ ((imageCoords is).text d ++ (", ".toList ++ z))))) ||
        (is.any (anywhere q none) || anywhere q none z)) := fun z => by
    rw [hq.word isIdent_storeFunction rfl (by decide), hq.apart (by decide), hq.image_name hs hn,
      hplace, hq.comma]
  rcases assign with _ | ⟨_ | op, v⟩
  · have h := hq.call (b := b) (u := loadWord d) (y := y)
      (ident_of_mem_phraseWords loadWord_mem) hargs
    rw [hq.imageArguments hs hn hi hlen, ← imageLoad_eq] at h
    simpa [Body.phraseImage, Subscript.anyPart] using h
  · have hval := hq.closing (b := none) ((hv _ rfl).imp_left IsValue.balanced) (z := [')'])
      (List.all_eq_true.1 (by decide)) (by simp)
    have h := hstore (v ++ ([')'] ++ y))
    rw [hval] at h
    simpa [Body.phraseImage, imageStore_eq, Body.call, Subscript.anyPart, Bool.or_assoc] using h
  · have hapart : ∀ c ∈ [' ', op, ' ', '('], isApart c = true := by
      have := hop _ rfl op rfl
      have hopa : isApart op = true := isApart_of_mark (by simp [isMark, this]) (by
        rintro rfl
        cases this)
      simp [hopa, show isApart ' ' = true by decide, show isApart '(' = true by decide]
    have hval := hq.closing (b := none) ((hv _ rfl).imp_left IsValue.balanced) (z := [')', ')'])
      (List.all_eq_true.1 (by decide)) (by simp)
    have hload := hq.call_word (y := [' ', op, ' ', '('] ++ (v ++ ([')', ')'] ++ y))) hs
      loadWord_mem hargs
    rw [hq.imageArguments hs hn hi hlen, ← imageLoad_eq, hq.skip_all hapart, hval] at hload
    have h := hstore (d.imageLoad name (imageCoords is) readWrite ++
      ([' ', op, ' ', '('] ++ (v ++ ([')', ')'] ++ y))))
    rw [hload] at h
    simpa [Body.phraseImage, imageStore_eq, Body.call, Subscript.anyPart, Bool.or_assoc] using h

/-- A search that passes over the member of a block. -/
structure SparesMember (q : Option Char → List Char → Bool) : Prop where
  inside {c : Char} {u y : List Char} (hc : isIdent c = true) (hu : ∀ x ∈ u, isIdent x = true) :
    q (some c) (u ++ '.' :: ("data".toList ++ '[' :: y)) = false
  data {y : List Char} : q (some '.') ("data".toList ++ '[' :: y) = false

theorem Finds.member (hq : Finds q) (hm : SparesMember q) (hu : ∀ c ∈ u, isIdent c = true) :
    anywhere q b (u ++ '.' :: ("data".toList ++ '[' :: y)) =
      (q b (u ++ '.' :: ("data".toList ++ '[' :: y)) || anywhere q none y) := by
  have hdata : ∀ b, anywhere q b ('.' :: ("data".toList ++ '[' :: y)) = anywhere q none y := by
    intro b
    rw [hq.plain (by decide), hq.word (List.all_eq_true.1 (by decide)) rfl (by decide), hm.data,
      hq.apart (by decide), Bool.false_or]
  have hinside : ∀ (u : List Char) (c : Char), isIdent c = true → (∀ c ∈ u, isIdent c = true) →
      anywhere q (some c) (u ++ '.' :: ("data".toList ++ '[' :: y)) = anywhere q none y := by
    intro u
    induction u with
    | nil => exact fun c _ _ => hdata _
    | cons d u ih =>
      intro c hc hu
      rw [List.cons_append, anywhere, ← List.cons_append, hm.inside hc hu, Bool.false_or]
      exact ih d (hu d List.mem_cons_self) fun x hx => hu x (List.mem_cons_of_mem _ hx)
  cases u with
  | nil =>
    have hno : q b ('.' :: ("data".toList ++ '[' :: y)) = false := by
      cases h : q b ('.' :: ("data".toList ++ '[' :: y)) with
      | false => rfl
      | true => exact absurd (hq.first h) (by decide)
    rw [List.nil_append, hdata, hno, Bool.false_or]
  | cons c u =>
    rw [List.cons_append, anywhere, hinside u c (hu c List.mem_cons_self)
      fun x hx => hu x (List.mem_cons_of_mem _ hx)]

/-- So is what is found in a phrase for a buffer. -/
theorem Finds.phraseBuffer (hq : Finds q) (hm : SparesMember q) (hn : isIdentifier name = true)
    (hi : ∀ i ∈ s.indices, Balanced i) (hlen : s.indices.length ≤ 1)
    (hop : ∀ a ∈ s.assign, ∀ c ∈ a.op, isOperator c = true)
    (hv : ∀ a ∈ s.assign, IsValue a.value ∧ y.head?.any isStop = true ∨ y = []) :
    anywhere q b (phraseBuffer .glsl name s ++ y) =
      (q b (Body.phraseBuffer .glsl name s ++ y) || (s.anyPart q || anywhere q none y)) := by
  have hindex : Balanced (s.indices.head?.getD []) := head_index rfl hi
  have hany : s.indices.any (anywhere q none) = anywhere q none (s.indices.head?.getD []) := by
    match s.indices, hlen with
    | [], _ => rfl
    | [i], _ => simp
  have hrest : anywhere q none (bufferRest s ++ y) =
      (s.assign.any (fun a => anywhere q none a.value) || anywhere q none y) := by
    unfold bufferRest
    rcases ha : s.assign with _ | a
    · rfl
    have hapart : ∀ c ∈ ' ' :: (a.op.toList ++ ['=', ' ']), isApart c = true := by
      intro c hc
      rcases List.mem_cons.1 hc with rfl | hc
      · decide
      rcases List.mem_append.1 hc with hc | hc
      · have := hop a ha c (by simpa using hc)
        refine isApart_of_mark (by simp [isMark, this]) ?_
        rintro rfl
        cases this
      · exact List.all_eq_true.1 (show ['=', ' '].all isApart = true by decide) c hc
    rw [List.append_assoc, hq.skip_all hapart, Option.any_some]
    rcases hv a ha with ⟨hval, hy⟩ | rfl
    · rcases y with _ | ⟨k, y⟩
      · cases hy
      · have hk : isStop k = true := by simpa using hy
        rw [hq.append_stop hval.balanced hk, hq.skip (isApart_of_stop hk)]
    · rw [List.append_nil, anywhere, Bool.or_false]
  have h := hq.member (b := b) (u := name)
    (y := s.indices.head?.getD [] ++ ']' :: (bufferRest s ++ y)) hm fun _ => ident_of_mem hn
  rw [hq.append_stop hindex rfl, hrest, ← hany] at h
  simpa [phraseBuffer_eq, Subscript.anyPart, Bool.or_assoc] using h

end Phrases

section Named

variable {p : Subscript → Bool} {n name : List Char} {m : Nat} {b : Option Char} {d : Dialect}
  {w x : List Char}

/-- Whether a use of `n` at a place is of the kind `p`. -/
def usesWith (n : List Char) (m : Nat) (p : Subscript → Bool) (b : Option Char) (cs : List Char) :
    Bool :=
  (occurrence? n m b cs).any fun s => p s.1

theorem indexGroups_append_blank (m : Nat) (hw : Blank w) : indexGroups m (x ++ w) =
    ((indexGroups m x).1, (indexGroups m x).2 ++ w) := by
  induction m generalizing x with
  | zero => rfl
  | succ m ih =>
    have hopen : ∀ {l r}, StaysOpen l r → StaysOpen l (r ++ w) := by
      intro l r h
      obtain ⟨l', hl⟩ := Option.isSome_iff_exists.1 h
      rw [StaysOpen, level?_append, hl, Option.bind_some, level?_blank hw]
      rfl
    rw [indexGroups, indexGroups]
    rcases ht : trimStart x with _ | ⟨c, r⟩
    · have hnil : trimStart w = [] := by
        have := trimStart_append (x := []) hw
        rwa [List.append_nil] at this
      rw [trimStart_append_of_nil ht, hnil]
    · rw [trimStart_append_of_cons ht]
      by_cases hc : c = '['
      · subst hc
        cases hs : splitClose 0 r with
        | none => simp only [splitClose_eq_none (hopen (staysOpen_of_splitClose hs)), hs]
        | some q =>
          obtain ⟨hl, k, hk, rfl⟩ := splitClose_level hs
          simp only [List.append_assoc, List.cons_append, splitClose_of_level hl hk, ih]
      · split
        · rename_i hr
          cases hr
          exact absurd rfl hc
        · split
          · rename_i hr
            cases hr
            exact absurd rfl hc
          · rfl

theorem target?_append_blank (hn : isIdentifier n = true) (hw : Blank w) : target? n m b (x ++ w) =
    (target? n m b x).map fun p => (p.1, p.2 ++ w) := by
  have hseam := seam_blank hw
  unfold target?
  rw [after?_append (fun _ => ident_of_mem hn) hseam]
  rcases after? n x with _ | r
  · rfl
  have hh : (r ++ w).head?.any isIdent = r.head?.any isIdent := by
    cases r with
    | nil => exact hseam.ident
    | cons c r => rfl
  simp only [Option.map_some, hh, indexGroups_append_blank m hw]
  split
  · rfl
  · split <;> rfl

theorem finds_usesWith (hn : isIdentifier n = true) : Finds (usesWith n m p) where
  nil {b} := by
    obtain ⟨c, ns, rfl, -⟩ := identifier_cons hn
    rfl
  first {b c r} h := by
    cases hc : isIdentStart c with
    | true => rfl
    | false => simp [usesWith, occurrence?_of_not_start hn hc] at h
  inside hc _ _ _ := by simp [usesWith, occurrence?_of_joins (joinsName_of_ident hc)]
  near hc := by
    unfold usesWith
    rw [occurrence?_congr (show joinsName _ = joinsName none from joinsName_of_apart hc)]
  stop hx hk := by
    unfold usesWith
    rw [occurrence?_append_stop hn hx hk]
    cases occurrence? n m _ _ <;> rfl
  blank {b w x} hw := by
    unfold usesWith
    rw [occurrence?_eq_target? hn, occurrence?_eq_target? hn, target?_append_blank hn hw]
    rcases target? n m b x with _ | ⟨is, z⟩
    · rfl
    simp only [Option.map_some, assignment?_append_blank hw]
    cases assignment? z <;> rfl

theorem spares_usesWith (hn : isIdentifier n = true) (hm : isIdentifier name = true) :
    Spares d name (usesWith n m p) where
  word hu he := by
    unfold usesWith
    rw [occurrence?_word hn (ident_of_mem_phraseWords hu) (callMark_apart he).1
      (.inr (callMark_apart he).2)]
    rfl
  name {y} := by
    unfold usesWith
    rw [occurrence?_word hn (fun _ => ident_of_mem hm) rfl (.inr ⟨rfl, by decide⟩)]
    rfl

theorem sparesMember_usesWith : SparesMember (usesWith n m p) where
  inside hc _ := by simp [usesWith, occurrence?_of_joins (joinsName_of_ident hc)]
  data := by simp [usesWith, occurrence?_of_joins (show joinsName (some '.') = true from rfl)]

/-- Where a use of one name starts, no use of another does. -/
theorem occurrence?_of_other {s : Subscript} {cs rest : List Char} (hn : isIdentifier n = true)
    (hm : isIdentifier name = true) (hne : name ≠ n) (hu : IsUse name s cs rest) :
    occurrence? n m b cs = none := by
  obtain ⟨w, r, hw, rfl⟩ := hu.front
  obtain ⟨e, t, ht, he⟩ : ∃ e t, w ++ '[' :: r = e :: t ∧ isIdent e = false := by
    rcases w with _ | ⟨e, w⟩
    · exact ⟨'[', r, rfl, rfl⟩
    · exact ⟨e, w ++ '[' :: r, rfl, isIdent_of_apart (isApart_of_blank (hw e List.mem_cons_self))⟩
  rw [ht]
  exact occurrence?_word hn (fun _ => ident_of_mem hm) he (.inl hne)

end Named

end ComputeKernel.Body
