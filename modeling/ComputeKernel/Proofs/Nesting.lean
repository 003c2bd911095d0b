import ComputeKernel.Proofs.Phrasing

/-!
# Kinds of brackets

Levels count brackets of all kinds alike. Here the brackets that are open at a place are known, the
last one first, and `mend` writes each closing bracket in the kind of the one that it closes. What
a text does to the brackets open before it depends on its levels only (`level?_opened`), and a
balanced text leaves them as they were (`Balanced.opened`). A text is matched if it is balanced and
needs no mending. Phrases of matched parts are matched, so the uses in a matched text can be
phrased (`matched_substitute`).
-/

namespace ComputeKernel.Text

/-- The closing bracket of the kind of an opening one. -/
def partner (o : Char) : Char :=
  if o = '(' then ')' else if o = '[' then ']' else if o = '{' then '}' else o

/-- The open brackets after a character. -/
def openStep (st : List Char) (c : Char) : List Char :=
  if isOpen c then c :: st else if isClose c then st.tail else st

/-- The open brackets after a text. -/
def opened (st cs : List Char) : List Char := cs.foldl openStep st

/-- A text with each bracket that closes one of the kinds `p` written in the kind of that one. -/
def mend (p : Char → Bool) (st : List Char) : List Char → List Char
  | [] => []
  | c :: r =>
    (if isClose c then (st.head?.filter p).elim c partner else c) :: mend p (openStep st c) r

/-- A balanced text in which each closing bracket is of the kind of the one that it closes. -/
structure Matched (cs : List Char) : Prop where
  balanced : Balanced cs
  kinds : mend (fun _ => true) [] cs = cs

section Stacks

variable {p : Char → Bool} {stop : Bool} {st a x y z : List Char} {c o k : Char} {m : Nat}

@[simp] theorem opened_nil : opened st [] = st := rfl

@[simp] theorem opened_cons : opened st (c :: x) = opened (openStep st c) x := rfl

theorem opened_append : opened st (x ++ y) = opened (opened st x) y := List.foldl_append

theorem openStep_open (h : isOpen c = true) : openStep st c = c :: st := if_pos h

theorem openStep_close (h : isClose c = true) : openStep st c = st.tail := by
  rw [openStep, if_neg (by simp [not_open_of_close h]), if_pos h]

theorem openStep_other (ho : isOpen c = false) (hc : isClose c = false) : openStep st c = st := by
  simp [openStep, ho, hc]

theorem mend_append : mend p st (x ++ y) = mend p st x ++ mend p (opened st x) y := by
  induction x generalizing st with
  | nil => rfl
  | cons c x ih => simp [mend, ih]

theorem length_mend : (mend p st x).length = x.length := by
  induction x generalizing st with
  | nil => rfl
  | cons c x ih => simp [mend, ih]

/-- A text that needs no mending is made of texts that need none. -/
theorem mend_append_eq_self :
    mend p st (x ++ y) = x ++ y ↔ mend p st x = x ∧ mend p (opened st x) y = y := by
  rw [mend_append]
  exact ⟨fun h => List.append_inj h length_mend, fun h => by rw [h.1, h.2]⟩

theorem mend_plain (h : ∀ c ∈ x, isOpen c = false ∧ isClose c = false) :
    mend p st x = x ∧ opened st x = st := by
  induction x generalizing st with
  | nil => exact ⟨rfl, rfl⟩
  | cons c x ih =>
    obtain ⟨ho, hc⟩ := h c List.mem_cons_self
    obtain ⟨hx, hst⟩ : mend p st x = x ∧ opened st x = st :=
      ih fun c hm => h c (List.mem_cons_of_mem _ hm)
    rw [mend, opened_cons, openStep_other ho hc, hx, hst, hc]
    exact ⟨rfl, rfl⟩

/-- A text that does not sink below the brackets `a` leaves those under them alone. -/
theorem level?_opened (p : Char → Bool) (st : List Char) (h : level? stop a.length x = some m) :
    (opened a x).length = m ∧ opened (a ++ st) x = opened a x ++ st ∧
      mend p (a ++ st) x = mend p a x := by
  induction x generalizing a with
  | nil =>
    cases h
    exact ⟨rfl, rfl, rfl⟩
  | cons c x ih =>
    rcases level?_cons_cases h with ⟨ho, h⟩ | ⟨-, hc, hl, h⟩ | ⟨ho, hc, -, h⟩
    · simpa [mend, openStep_open ho, not_close_of_open ho] using ih (a := c :: a) h
    · obtain ⟨o, a, rfl⟩ := List.exists_cons_of_length_pos hl
      simpa [mend, openStep_close hc, hc] using ih (a := a) h
    · simpa [mend, openStep_other ho hc, hc] using ih h

theorem Balanced.opened (h : Balanced x) : Text.opened st x = st := by
  obtain ⟨hl, hst, -⟩ := level?_opened (a := []) (fun _ => true) st h
  rw [List.length_eq_zero_iff] at hl
  rw [← List.nil_append st, hst, hl]

theorem Balanced.mend (h : Balanced x) : mend p st x = mend p [] x :=
  (level?_opened (a := []) p st h).2.2

/-- A bracket of any kind closes the one before a text that leaves it open. -/
theorem opened_bracket (ho : isOpen o = true) (hk : isClose k = true)
    (hx : opened (o :: st) x = o :: st) : opened st (o :: (x ++ [k])) = st := by
  rw [opened_cons, openStep_open ho, opened_append, hx, opened_cons, openStep_close hk]
  rfl

/-- The bracket after a text is mended to the kind of the one before it. -/
theorem mend_bracket (ho : isOpen o = true) (hk : isClose k = true) (hp : p o = true)
    (hx : opened (o :: st) x = o :: st) :
    mend p st (o :: (x ++ [k])) = o :: (mend p (o :: st) x ++ [partner o]) := by
  rw [mend, openStep_open ho, mend_append, hx]
  simp [mend, hk, hp, not_close_of_open ho, Option.filter]

end Stacks

section Matching

variable {st x y : List Char} {o k : Char}

theorem not_bracket_of_any (h : x.any (fun c => isOpen c || isClose c) = false) :
    ∀ c ∈ x, isOpen c = false ∧ isClose c = false := by
  intro c hc
  simpa using List.any_eq_false.1 h c hc

theorem matched_plain (h : x.any (fun c => isOpen c || isClose c) = false) : Matched x := by
  refine ⟨?_, (mend_plain (not_bracket_of_any h)).1⟩
  induction x with
  | nil => rfl
  | cons c x ih =>
    obtain ⟨ho, hc⟩ := not_bracket_of_any h c List.mem_cons_self
    rw [List.any_cons, Bool.or_eq_false_iff] at h
    simpa [Balanced, level?_cons, levelStep?, ho, hc] using ih h.2

theorem Matched.append (hx : Matched x) (hy : Matched y) : Matched (x ++ y) :=
  ⟨hx.balanced.append hy.balanced,
    mend_append_eq_self.2 ⟨hx.kinds, by rw [hx.balanced.opened]; exact hy.kinds⟩⟩

/-- A matched text between two brackets of one kind. -/
theorem Matched.bracket (ho : isOpen o = true) (hp : partner o = k) (hx : Matched x) :
    Matched (o :: (x ++ [k])) := by
  have hk : isClose k = true := by
    rw [← hp]
    simp only [isOpen, Bool.or_eq_true, beq_iff_eq] at ho
    rcases ho with (rfl | rfl) | rfl <;> decide
  refine ⟨?_, ?_⟩
  · rw [Balanced, Body.level?_open_append ho, level?_append, hx.balanced.level (by simp),
      Option.bind_some, Body.level?_close_append hk]
    rfl
  · rw [mend_bracket ho hk rfl hx.balanced.opened, hx.balanced.mend, hx.kinds, hp]

theorem Matched.trim (hx : Matched x) : Matched (trim x) := by
  obtain ⟨a, b, ha, -, hab, -⟩ := exists_trim x
  have hkinds := hx.kinds
  rw [hab, List.append_assoc, mend_append_eq_self] at hkinds
  refine ⟨Body.level?_trim hx.balanced, ?_⟩
  rw [Balanced.opened (Body.level?_blank ha), mend_append_eq_self] at hkinds
  exact hkinds.2.1

end Matching

end ComputeKernel.Text

namespace ComputeKernel.Body

open Text

section Phrases

variable {d : Dialect} {name word inner : List Char} {readWrite : Bool} {is : List (List Char)}
  {s : Subscript}

/-- A use whose indices and value are matched. -/
structure Subscript.Matched (s : Subscript) : Prop where
  indices : ∀ i ∈ s.indices, Text.Matched i
  value : ∀ a ∈ s.assign, Text.Matched a.value

/-- What is made of a use with matched parts is matched. -/
def KeepsKinds (f : Subscript → List Char) : Prop :=
  ∀ s : Subscript, s.WellFormed → s.Matched → Matched (f s)

theorem matched_of_not_mark (h : ∀ c ∈ word, isMark c = false) : Matched word := by
  refine matched_plain (List.any_eq_false.2 fun c hc => ?_)
  obtain ⟨ho, hcl, -⟩ := mark_eq_false (h c hc)
  simp [ho, hcl]

theorem matched_name (hn : isIdentifier name = true) : Matched name :=
  matched_of_not_mark fun _ hc => not_mark_of_ident (ident_of_mem hn hc)

theorem matched_call (hw : Matched word) (hi : Matched inner) : Matched (call word inner) :=
  hw.append (hi.bracket rfl rfl)

theorem matched_comma : Matched ", ".toList := matched_plain (by decide)

theorem matched_coords (h : ∀ i ∈ is, Matched i) : Matched ((imageCoords is).text d) := by
  have hpair : Matched (pairWord d) := matched_plain (by cases d <;> decide)
  have hcoord : Matched (coordWord d) := matched_plain (by cases d <;> decide)
  have hpos : ∀ {pos}, Matched pos → Matched ((Coords.position (trim pos)).text d) := by
    intro pos hp
    rw [text_position]
    exact matched_call hpair hp.trim
  match is, h with
  | [], _ => exact @hpos [] (matched_plain rfl)
  | [pos], h => exact hpos (h pos (by simp))
  | pos :: _ :: _ :: _, h => exact hpos (h pos (by simp))
  | [row, col], h =>
    rw [show imageCoords [row, col] = .rowCol (trim row) (trim col) from rfl, text_rowCol]
    exact matched_call hpair ((matched_call hcoord (h col (by simp)).trim).append
      (matched_comma.append (matched_call hcoord (h row (by simp)).trim)))

theorem matched_imageRest (hn : isIdentifier name = true) (hw : s.WellFormed) (hs : s.Matched) :
    Matched (imageRest d name readWrite s) := by
  have hlevel : Matched (loadLevel d readWrite) :=
    matched_plain (by cases d <;> cases readWrite <;> decide)
  unfold imageRest
  rcases s with ⟨is, _ | ⟨_ | op, value⟩⟩
  · exact hlevel
  · exact matched_comma.append (hs.value _ rfl)
  · have hload : Matched (d.imageLoad name (imageCoords is) readWrite) := by
      rw [imageLoad_eq]
      have hload : Matched (loadWord d) := matched_plain (by cases d <;> decide)
      exact matched_call hload ((matched_name hn).append
        (matched_comma.append ((matched_coords hs.indices).append hlevel)))
    have hop : Matched [' ', op, ' '] := by
      have ho := hw.op _ rfl op rfl
      simp only [isOperator, Bool.or_eq_true, beq_iff_eq] at ho
      rcases ho with ((rfl | rfl) | rfl) | rfl <;> exact matched_plain (by decide)
    exact matched_comma.append (hload.append (hop.append
      (matched_call (matched_plain rfl) (hs.value _ rfl))))

theorem keepsKinds_image (hn : isIdentifier name = true) :
    KeepsKinds (phraseImage d name readWrite) := by
  intro s hw hs
  rw [phraseImage_eq]
  exact matched_call (matched_name (isIdentifier_function s)) ((matched_name hn).append
    (matched_comma.append ((matched_coords hs.indices).append (matched_imageRest hn hw hs))))

theorem keepsKinds_buffer (hn : isIdentifier name = true) :
    KeepsKinds (phraseBuffer .glsl name) := by
  intro s hw hs
  have hindex : Matched (s.indices.head?.getD []) := head_index (matched_plain rfl) hs.indices
  have hrest : Matched (bufferRest s) := by
    unfold bufferRest
    rcases s with ⟨is, _ | ⟨op, value⟩⟩
    · exact matched_plain rfl
    · refine Matched.append (matched_plain ?_) (hs.value _ rfl)
      cases op with
      | none => rfl
      | some op =>
        have ho := hw.op _ rfl op rfl
        simp only [isOperator, Bool.or_eq_true, beq_iff_eq] at ho
        rcases ho with ((rfl | rfl) | rfl) | rfl <;> rfl
  have hdata : Matched ('.' :: "data".toList) := matched_plain (by decide)
  have helement : Matched ('[' :: (s.indices.head?.getD [] ++ [']'])) := hindex.bracket rfl rfl
  have hall := (matched_name hn).append (hdata.append (helement.append hrest))
  rw [phraseBuffer_eq]
  simpa using hall

end Phrases

section Uses

variable {name : List Char} {max : Nat} {f : Subscript → List Char} {b : Option Char}
  {l : Nat} {st g x cs rest : List Char} {is : List (List Char)} {s : Subscript}

theorem Indices.matched (h : Indices is g) (hg : mend (fun _ => true) st g = g) :
    ∀ i ∈ is, Matched i := by
  induction h with
  | nil => simp
  | @cons blanks i k is g hb hi hk h ih =>
    rw [mend_append_eq_self, Balanced.opened (level?_blank hb), mend, openStep_open rfl,
      List.cons.injEq, mend_append_eq_self, hi.mend, hi.opened, mend, openStep_close hk,
      List.cons.injEq] at hg
    exact List.forall_mem_cons.2 ⟨⟨hi, hg.2.2.1⟩, ih hg.2.2.2.2⟩

/-- The parts of a use in a text that needs no mending are matched. -/
theorem IsUse.matched (hn : isIdentifier name = true) (h : IsUse name s cs rest) (hw : s.WellFormed)
    (hm : mend (fun _ => true) st cs = cs) :
    s.Matched ∧ mend (fun _ => true) st rest = rest := by
  have hname : Balanced name := level?_name hn
  cases h with
  | @load is g _ hi _ =>
    have hg : Balanced g := hi.level
    rw [mend_append_eq_self, hname.opened, mend_append_eq_self, hg.opened] at hm
    exact ⟨⟨hi.matched hm.2.1, by simp⟩, hm.2.2⟩
  | @store is g blanks sign v _ op m hi _ hb hs hv hr =>
    have hg : Balanced g := hi.level
    have hblanks : Balanced blanks := level?_blank hb
    have hsign : Balanced sign := hs.level
    obtain rfl : m = 0 := by
      have hvalue : level? true 0 (trim v) = some 0 := hw.value _ rfl
      rw [level?_trim hv] at hvalue
      exact Option.some.inj hvalue
    have hvb : Balanced v := IsValue.balanced hv
    simp only [mend_append_eq_self, hname.opened, hg.opened, hblanks.opened, hsign.opened,
      hvb.opened, hvb.mend] at hm
    obtain ⟨-, hgm, -, -, hvm, hrest⟩ := hm
    refine ⟨⟨hi.matched hgm, fun a ha => ?_⟩, hrest⟩
    cases ha
    exact Matched.trim ⟨hvb, hvm⟩

/-- Uses may be phrased in a text whose brackets are of the right kinds. -/
theorem mend_substituteFrom (hn : isIdentifier name = true) (hf : KeepsLevel f) (hk : KeepsKinds f)
    (hl : level? false l x = some 0) (hx : mend (fun _ => true) st x = x) :
    mend (fun _ => true) st (substituteFrom name max f b x) = substituteFrom name max f b x := by
  refine substituteFrom_induct (f := f) hn
    (P := fun _ x y => ∀ l st, level? false l x = some 0 → mend (fun _ => true) st x = x →
      mend (fun _ => true) st y = y)
    (fun _ _ _ _ h => h) (fun b c r _ ih l st hl hx => ?_)
    (fun b cs s rest ho hi ha ih l st hl hx => ?_) b x l st hl hx
  · rw [level?_cons] at hl
    obtain ⟨l', -, hl⟩ := Option.bind_eq_some_iff.1 hl
    rw [mend, List.cons.injEq] at hx ⊢
    exact ⟨hx.1, ih l' _ hl hx.2⟩
  · have hu := (occurrence?_isUse ho).2
    obtain ⟨hw, hrest⟩ := hu.level hn hl
    obtain ⟨hs, hmend⟩ := hu.matched hn hw hx
    have hw' : (s.map (substituteFrom name max f none)).WellFormed :=
      hw.map (fun i hm => level?_substituteFrom hn hf (hw.indices i hm))
        fun a hm => level?_substituteFrom hn hf (hw.value a hm)
    obtain ⟨hi', ha'⟩ := s.forall_map (P := Matched) (Q := Matched)
      (fun i hm => ⟨level?_substituteFrom hn hf (hw.indices i hm),
        hi i hm 0 [] (hw.indices i hm) (hs.indices i hm).kinds⟩)
      fun a hm => ⟨level?_substituteFrom hn hf (hw.value a hm).balanced,
        ha a hm 0 [] (hw.value a hm).balanced (hs.value a hm).kinds⟩
    have hphrase := hk _ hw' ⟨hi', ha'⟩
    rw [mend_append_eq_self, hphrase.balanced.mend, hphrase.balanced.opened]
    exact ⟨hphrase.kinds, ih l st hrest hmend⟩

theorem matched_substitute (hn : isIdentifier name = true) (hf : KeepsLevel f) (hk : KeepsKinds f)
    (hx : Matched x) : Matched (substitute name max f x) :=
  ⟨level?_substituteFrom hn hf hx.balanced, mend_substituteFrom hn hf hk hx.balanced hx.kinds⟩

end Uses

end ComputeKernel.Body
