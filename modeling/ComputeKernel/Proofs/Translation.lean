import ComputeKernel.Proofs.Phrasing

/-!
# Translation of image subscripts

`phraseUses` goes over a text once for each parameter. A pass for one parameter goes over
brackets, marks and blanks piece by piece (`Pass`), and a pass for another parameter leaves the
subscripts of an image and the calls made of them in place (`Foreign`). So the passes before and
after that of an image only reach the rows, the columns and the values, and what becomes of a
subscript is a call whose arguments are translated in the same way. With counters of 32 bits that is
so for texts of fewer than `2 ^ 31` characters (`ByOffset.substitute?_of_lt`).
-/

namespace ComputeKernel.Body

open Text

section Passes

variable {ns : List (List Char)} {a name : List Char} {max : Nat} {f : Subscript → List Char}
  {g h : List Char → List Char}

/-- A pass over texts. It may be exchanged with trimming where a text does not end with an
assignment of nothing to one of `ns`. -/
structure Pass (ns : List (List Char)) (g : List Char → List Char) : Prop where
  nil : g [] = []
  stop {x y : List Char} {k : Char} (hx : Balanced x) (hk : isStop k = true) :
    g (x ++ k :: y) = g x ++ k :: g y
  plain {c : Char} {y : List Char} (hc : isIdentStart c = false) (hj : joinsName (some c) = false) :
    g (c :: y) = c :: g y
  balanced {x : List Char} (hx : Balanced x) : Balanced (g x)
  value {x : List Char} (hx : IsValue x) : IsValue (g x)
  sign {x : List Char} (hx : assignSign? x = none) : assignSign? (g x) = none
  markers {x : List Char} (hx : MarkerFree x) : MarkerFree (g x)
  dangles {n x : List Char} (hn : n ∈ ns) (hx : Balanced x) (hd : Dangles n none (g x)) :
    Dangles n none x
  trim {x : List Char} (hx : Balanced x) (hd : ∀ n ∈ ns, ¬ Dangles n none x) :
    g (Text.trim x) = Text.trim (g x)

/-- A pass for other names than `a`. -/
structure Foreign (a : List Char) (ns : List (List Char)) (g : List Char → List Char) : Prop
    extends Pass ns g where
  word {u y : List Char} {e : Char} (hu : ∀ c ∈ u, isIdent c = true)
    (he : joinsName (some e) = false ∧ isBlank e = false ∧ e ≠ '[') :
    g (u ++ e :: y) = u ++ e :: g y
  target {y : List Char} : g (a ++ '[' :: y) = a ++ '[' :: g y

theorem Pass.id : Pass ns id where
  nil := rfl
  stop _ _ := rfl
  plain _ _ := rfl
  balanced hx := hx
  value hx := hx
  sign hx := hx
  markers hx := hx
  dangles _ _ hd := hd
  trim _ _ := rfl

theorem Pass.comp (hg : Pass ns g) (hh : Pass ns h) : Pass ns (g ∘ h) where
  nil := by rw [Function.comp_apply, hh.nil, hg.nil]
  stop hx hk := by
    simp only [Function.comp_apply]
    rw [hh.stop hx hk, hg.stop (hh.balanced hx) hk]
  plain hc hj := by
    simp only [Function.comp_apply]
    rw [hh.plain hc hj, hg.plain hc hj]
  balanced hx := hg.balanced (hh.balanced hx)
  value hx := hg.value (hh.value hx)
  sign hx := hg.sign (hh.sign hx)
  markers hx := hg.markers (hh.markers hx)
  dangles hn hx hd := hh.dangles hn hx (hg.dangles hn (hh.balanced hx) hd)
  trim hx hd := by
    simp only [Function.comp_apply]
    rw [hh.trim hx hd]
    exact hg.trim (hh.balanced hx) fun n hn hdn => hd n hn (hh.dangles hn hx hdn)

theorem Foreign.id : Foreign a ns id where
  toPass := Pass.id
  word _ _ := rfl
  target := rfl

theorem Foreign.comp (hg : Foreign a ns g) (hh : Foreign a ns h) : Foreign a ns (g ∘ h) where
  toPass := hg.toPass.comp hh.toPass
  word hu he := by
    simp only [Function.comp_apply]
    rw [hh.word hu he, hg.word hu he]
  target {y} := by
    simp only [Function.comp_apply]
    rw [hh.target, hg.target]

theorem Foreign.foldl {α : Type} {step : List Char → α → List Char} {ps : List α}
    (hp : ∀ p ∈ ps, Foreign a ns (step · p)) : Foreign a ns (ps.foldl step ·) := by
  induction ps with
  | nil => exact Foreign.id
  | cons p ps ih =>
    exact (ih fun q hq => hp q (List.mem_cons_of_mem _ hq)).comp (hp p List.mem_cons_self)

theorem pass_substitute (hn : isIdentifier name = true) (hns : ∀ n ∈ ns, isIdentifier n = true)
    (hf : Phrasing f) (hd : EndsTight f ∨ max = 1 ∧ name ∈ ns) :
    Pass ns (substitute name max f) where
  nil := substituteFrom_nil
  stop hx hk := substituteFrom_stop hn hx hk
  plain hc hj := by
    unfold substitute
    rw [substituteFrom_cons hn hc]
    exact congrArg _ (substituteFrom_congr hn hj)
  balanced hx := level?_substituteFrom hn hf.level hx
  value hx := level?_substituteFrom hn hf.level hx
  sign hx := assignSign?_substituteFrom hn hf.start hx
  markers hx := hx.substituteFrom hn hf.start hf.markers
  dangles hm hx hd := Dangles.of_substituteFrom hn (hns _ hm) hf.start hf.level hf.ends hx hd
  trim hx hnd := trim_substituteFrom hn hf.start hf.value hx
    (hd.imp_right fun hd => ⟨hd.1, hnd name hd.2⟩)

theorem foreign_substitute (hn : isIdentifier name = true) (ha : isIdentifier a = true)
    (hns : ∀ n ∈ ns, isIdentifier n = true) (hf : Phrasing f)
    (hd : EndsTight f ∨ max = 1 ∧ name ∈ ns) (hne : a ≠ name) :
    Foreign a ns (substitute name max f) where
  toPass := pass_substitute hn hns hf hd
  word hu he := substituteFrom_word hn hu he.1 (.inr he.2)
  target := substituteFrom_word hn (fun _ => ident_of_mem ha) rfl (.inl hne)

end Passes

section Calls

variable {ns : List (List Char)} {a : List Char} {g : List Char → List Char} {d : Dialect}
  {readWrite : Bool} {r c v u x y inner : List Char} {is : List (List Char)}

theorem Foreign.call (hg : Foreign a ns g) (hu : ∀ c ∈ u, isIdent c = true) (hi : Balanced inner) :
    g (call u inner ++ y) = call u (g inner) ++ g y := by
  have h : g (u ++ '(' :: (inner ++ ')' :: y)) = u ++ '(' :: (g inner ++ ')' :: g y) := by
    rw [hg.word hu ⟨rfl, rfl, by decide⟩, hg.stop hi rfl]
  simpa [Body.call] using h

theorem Foreign.comma (hg : Foreign a ns g) : g (", ".toList ++ y) = ", ".toList ++ g y := by
  have hword : g ([] ++ ',' :: ' ' :: y) = [] ++ ',' :: g (' ' :: y) :=
    hg.word (by simp) ⟨rfl, rfl, by decide⟩
  exact hword.trans (congrArg (',' :: ·) (hg.plain rfl rfl))

theorem Foreign.name (hg : Foreign a ns g) (ha : isIdentifier a = true) :
    g (a ++ (", ".toList ++ y)) = a ++ (", ".toList ++ g y) := by
  have hword : g (a ++ ',' :: ' ' :: y) = a ++ ',' :: g (' ' :: y) :=
    hg.word (fun _ => ident_of_mem ha) ⟨rfl, rfl, by decide⟩
  exact hword.trans (congrArg (a ++ ',' :: ·) (hg.plain rfl rfl))

/-- The word before a position need not be an identifier. -/
theorem Foreign.pair (hg : Foreign a ns g) (hi : Balanced inner) :
    g (Body.call (pairWord d) inner ++ y) = Body.call (pairWord d) (g inner) ++ g y := by
  cases d with
  | glsl => exact hg.call (List.all_eq_true.1 (by decide)) hi
  | wgsl =>
    have h : g ("vec2".toList ++ '<' ::
          ("i32".toList ++ '>' :: ([] ++ '(' :: (inner ++ ')' :: y)))) =
        "vec2".toList ++ '<' ::
          ("i32".toList ++ '>' :: ([] ++ '(' :: (g inner ++ ')' :: g y))) := by
      rw [hg.word (List.all_eq_true.1 (by decide)) ⟨rfl, rfl, by decide⟩,
        hg.word (List.all_eq_true.1 (by decide)) ⟨rfl, rfl, by decide⟩,
        hg.word (by simp) ⟨rfl, rfl, by decide⟩, hg.stop hi rfl]
    have hw : pairWord .wgsl = "vec2".toList ++ '<' :: ("i32".toList ++ ['>']) := by decide
    rw [hw]
    simpa [Body.call] using h

theorem Foreign.rowCol (hg : Foreign a ns g) (hr : Balanced r) (hc : Balanced c) :
    g ((Coords.rowCol r c).text d ++ y) = (Coords.rowCol (g r) (g c)).text d ++ g y := by
  have hcoord : ∀ c ∈ coordWord d, isIdent c = true :=
    List.all_eq_true.1 (by cases d <;> decide)
  have hcomma : Balanced ", ".toList := by decide
  have hrow : Balanced (Body.call (coordWord d) r) := level?_call level?_coordWord hr
  have hcol : Balanced (Body.call (coordWord d) c) := level?_call level?_coordWord hc
  have hlast : g (Body.call (coordWord d) r) = Body.call (coordWord d) (g r) := by
    have := hg.call (y := []) hcoord hr
    simpa [hg.nil] using this
  rw [text_rowCol, text_rowCol, hg.pair (hcol.append (hcomma.append hrow)), hg.call hcoord hc,
    hg.comma, hlast]

/-- A position stays one, with the indices translated. -/
theorem Foreign.place (hg : Foreign a ns g) (hi : ∀ i ∈ is, Balanced i)
    (hd : ∀ i ∈ is, ∀ n ∈ ns, ¬ Dangles n none i) (hlen : is.length ≤ 2) :
    g ((imageCoords is).text d ++ y) = (imageCoords (is.map g)).text d ++ g y := by
  have htrim : ∀ {i}, i ∈ is → Balanced (trim i) ∧ trim (g i) = g (trim i) := fun h =>
    ⟨level?_trim (hi _ h), (hg.trim (hi _ h) (hd _ h)).symm⟩
  match is, hlen with
  | [], _ =>
    rw [List.map_nil, imageCoords, text_position, hg.pair (by decide), hg.nil]
  | [pos], _ =>
    obtain ⟨hb, ht⟩ := htrim (i := pos) (by simp)
    rw [List.map_singleton, imageCoords, imageCoords, text_position, text_position, hg.pair hb, ht]
    all_goals simp
  | [row, col], _ =>
    obtain ⟨hr, hrt⟩ := htrim (i := row) (by simp)
    obtain ⟨hc, hct⟩ := htrim (i := col) (by simp)
    have hcoords : imageCoords ([row, col].map g) = .rowCol (trim (g row)) (trim (g col)) := rfl
    rw [hcoords, hrt, hct]
    exact hg.rowCol hr hc

/-- A word at the end of a text stays as it does in front of a bracket. -/
theorem Foreign.last_word (hg : Foreign a ns g) (hu : ∀ c ∈ u, isIdent c = true) : g u = u := by
  have hb : Balanced u := level?_of_not_mark fun c hc => not_mark_of_ident (hu c hc)
  have hstop := hg.stop (y := []) (k := ')') hb rfl
  rw [hg.word hu ⟨rfl, rfl, by decide⟩] at hstop
  exact (List.append_cancel_right hstop).symm

theorem Foreign.loadLevel (hg : Foreign a ns g) :
    g (loadLevel d readWrite) = Body.loadLevel d readWrite := by
  cases d with
  | glsl => exact hg.nil
  | wgsl =>
    cases readWrite with
    | true => exact hg.nil
    | false =>
      have h : ", 0".toList = ", ".toList ++ ['0'] := by decide
      rw [Body.loadLevel, h, hg.comma, hg.last_word (List.all_eq_true.1 (by decide))]

/-- A load stays a load of the same image at a translated position. -/
theorem Foreign.imageLoad (hg : Foreign a ns g) (ha : isIdentifier a = true)
    (hi : ∀ i ∈ is, Balanced i) (hd : ∀ i ∈ is, ∀ n ∈ ns, ¬ Dangles n none i)
    (hlen : is.length ≤ 2) : g (d.imageLoad a (imageCoords is) readWrite ++ y) =
      d.imageLoad a (imageCoords (is.map g)) readWrite ++ g y := by
  have hword : ∀ c ∈ loadWord d, isIdent c = true :=
    List.all_eq_true.1 (by cases d <;> decide)
  have hcomma : Balanced ", ".toList := by decide
  have hinner : Balanced (a ++ (", ".toList ++ ((imageCoords is).text d ++
      Body.loadLevel d readWrite))) :=
    Balanced.append (level?_name ha)
      (hcomma.append ((balanced_text hi).append balanced_loadLevel))
  rw [imageLoad_eq, imageLoad_eq, hg.call hword hinner, hg.name ha, hg.place hi hd hlen,
    hg.loadLevel]

/-- A store stays a store to the same image of a translated value at a translated position. -/
theorem Foreign.imageStore (hg : Foreign a ns g) (ha : isIdentifier a = true)
    (hi : ∀ i ∈ is, Balanced i) (hd : ∀ i ∈ is, ∀ n ∈ ns, ¬ Dangles n none i)
    (hlen : is.length ≤ 2) (hv : Balanced v) : g (d.imageStore a (imageCoords is) v ++ y) =
      d.imageStore a (imageCoords (is.map g)) (g v) ++ g y := by
  have hword : ∀ c ∈ d.storeFunction.toList, isIdent c = true :=
    List.all_eq_true.1 (by cases d <;> decide)
  have hcomma : Balanced ", ".toList := by decide
  have hinner : Balanced (a ++ (", ".toList ++ ((imageCoords is).text d ++ (", ".toList ++ v)))) :=
    Balanced.append (level?_name ha)
      (hcomma.append ((balanced_text hi).append (hcomma.append hv)))
  rw [imageStore_eq, imageStore_eq, hg.call hword hinner, hg.name ha, hg.place hi hd hlen, hg.comma]

end Calls

section Parameters

/-- How many indices belong to a use. -/
def Form.maxIndices : Form → Nat
  | .buffer => 1
  | .image _ => 2

/-- Whether a use of `name` somewhere in a text assigns nothing. -/
def assignsNothing (name : List Char) (max : Nat) : Option Char → List Char → Bool
  | _, [] => false
  | b, c :: r =>
    (occurrence? name max b (c :: r)).any (fun p => p.1.assign.any (·.value.isEmpty)) ||
      assignsNothing name max (some c) r

variable {params : List (String × Form)} {d : Dialect} {a : String} {readWrite : Bool}
  {n x : List Char} {b : Option Char}

theorem Dangles.assignsNothing (hn : isIdentifier n = true) (h : Dangles n b x) :
    assignsNothing n 1 b x = true := by
  induction h with
  | later _ ih => rw [Body.assignsNothing, ih, Bool.or_true]
  | @here b w i w' sign w'' k op hj hw hi hk hw' hs hw'' =>
    have hhead : (w ++ '[' :: (i ++ k :: (w' ++ (sign ++ w'')))).head?.any isIdent = false := by
      cases w with
      | nil => rfl
      | cons e w => simpa using (seam_blank hw).ident
    have hg : indexGroups 1 (w ++ '[' :: (i ++ k :: (w' ++ (sign ++ w'')))) =
        ([i], w' ++ (sign ++ w'')) := indexGroups_cons hw hi hk
    have ho := occurrence?_name hn hj hhead hg
    simp only [assignment?_of_blank hw' hs hw''] at ho
    obtain ⟨c, ns, rfl, -⟩ := identifier_cons hn
    rw [List.cons_append] at ho ⊢
    rw [Body.assignsNothing, ho]
    rfl

/-- The names of the buffers. -/
def bufferNames (params : List (String × Form)) : List (List Char) :=
  (params.filter (·.2 = .buffer)).map (·.1.toList)

theorem not_dangles (hid : ∀ p ∈ params, isIdentifier p.1.toList = true)
    (hx : ∀ p ∈ params, assignsNothing p.1.toList p.2.maxIndices none x = false) :
    ∀ n ∈ bufferNames params, ¬ Dangles n none x := by
  intro n hn hd
  simp only [bufferNames, List.mem_map, List.mem_filter, decide_eq_true_eq] at hn
  obtain ⟨p, ⟨hp, hb⟩, rfl⟩ := hn
  have hnone := hx p hp
  rw [hb] at hnone
  exact absurd (hd.assignsNothing (hid p hp)) (by rw [Form.maxIndices] at hnone; simp [hnone])

theorem foreign_phraseIfImage {ns : List (List Char)} {a : List Char} {p : String × Form}
    (hp : isIdentifier p.1.toList = true) (ha : isIdentifier a = true)
    (hns : ∀ n ∈ ns, isIdentifier n = true) (hne : a ≠ p.1.toList) :
    Foreign a ns (phraseIfImage d · p) := by
  unfold phraseIfImage
  cases p.2 with
  | buffer => exact Foreign.id
  | image readWrite =>
    exact foreign_substitute hp ha hns (phrasing_image hp) (.inl endsTight_image) hne

theorem foreign_phraseIfBuffer {ns : List (List Char)} {a : List Char} {p : String × Form}
    (hp : isIdentifier p.1.toList = true) (ha : isIdentifier a = true)
    (hns : ∀ n ∈ ns, isIdentifier n = true) (hmem : p.2 = .buffer → p.1.toList ∈ ns)
    (hne : p.2 = .buffer → a ≠ p.1.toList) : Foreign a ns (phraseIfBuffer .glsl · p) := by
  unfold phraseIfBuffer
  cases hf : p.2 with
  | image readWrite => exact Foreign.id
  | buffer =>
    exact foreign_substitute hp ha hns (phrasing_buffer hp) (.inr ⟨rfl, hmem hf⟩) (hne hf)

/-- The passes for buffers. -/
def phraseBuffers (d : Dialect) (params : List (String × Form)) (text : List Char) : List Char :=
  match d with
  | .wgsl => text
  | .glsl => params.foldl (phraseIfBuffer d) text

theorem phraseUses_eq (text : List Char) : phraseUses d params text =
    dropMarkers (phraseBuffers d params (params.foldl (phraseIfImage d) text)) := by
  cases d <;> rfl

/-- The passes for the other parameters stand before and after the pass for an image. -/
theorem exists_passes (hid : ∀ p ∈ params, isIdentifier p.1.toList = true)
    (hnd : (params.map Prod.fst).Nodup) (ha : (a, .image readWrite) ∈ params) :
    ∃ before after, Foreign a.toList (bufferNames params) before ∧
      Foreign a.toList (bufferNames params) after ∧
      Pass (bufferNames params) (substitute a.toList 2 (phraseImage d a.toList readWrite)) ∧
      ∀ x, MarkerFree x → phraseUses d params x =
        after (substitute a.toList 2 (phraseImage d a.toList readWrite) (before x)) := by
  have hname : isIdentifier a.toList = true := hid _ ha
  have hns : ∀ n ∈ bufferNames params, isIdentifier n = true := by
    intro n hn
    simp only [bufferNames, List.mem_map, List.mem_filter] at hn
    obtain ⟨p, hp, rfl⟩ := hn
    exact hid p hp.1
  obtain ⟨front, back, hparams⟩ := List.append_of_mem ha
  have hother : ∀ p ∈ front ++ back, a.toList ≠ p.1.toList := by
    rw [hparams, List.map_append, List.map_cons, List.nodup_append, List.nodup_cons] at hnd
    intro p hp he
    have hpa : p.1 = a := (String.toList_inj.1 he).symm
    rcases List.mem_append.1 hp with hp | hp
    · exact hnd.2.2 p.1 (List.mem_map_of_mem hp) a List.mem_cons_self hpa
    · exact hnd.2.1.1 (List.mem_map.2 ⟨p, hp, hpa⟩)
  have hmem : ∀ p ∈ front ++ back, p ∈ params := by
    intro p hp
    rw [hparams]
    exact List.mem_append.2 ((List.mem_append.1 hp).imp_right (List.mem_cons_of_mem _))
  have himage : ∀ ps : List (String × Form), (∀ p ∈ ps, p ∈ front ++ back) →
      Foreign a.toList (bufferNames params) (ps.foldl (phraseIfImage d) ·) := fun ps hps =>
    Foreign.foldl fun p hp =>
      foreign_phraseIfImage (hid p (hmem p (hps p hp))) hname hns (hother p (hps p hp))
  have hbuffers : Foreign a.toList (bufferNames params) (phraseBuffers d params) := by
    cases d with
    | wgsl => exact Foreign.id
    | glsl =>
      refine Foreign.foldl fun p hp => foreign_phraseIfBuffer (hid p hp) hname hns (fun hb => ?_)
        fun hb => hother p ?_
      · exact List.mem_map_of_mem (List.mem_filter.2 ⟨hp, by simp [hb]⟩)
      · rw [hparams] at hp
        rcases List.mem_append.1 hp with hp | hp
        · exact List.mem_append_left _ hp
        · rcases List.mem_cons.1 hp with rfl | hp
          · cases hb
          · exact List.mem_append_right _ hp
  have hpass : Pass (bufferNames params)
      (substitute a.toList 2 (phraseImage d a.toList readWrite)) :=
    pass_substitute hname hns (phrasing_image hname) (.inl endsTight_image)
  have hfront := himage front fun p hp => List.mem_append_left _ hp
  have hback := himage back fun p hp => List.mem_append_right _ hp
  refine ⟨_, _, hfront, hbuffers.comp hback, hpass, fun x hx => ?_⟩
  have hfold : params.foldl (phraseIfImage d) x = back.foldl (phraseIfImage d)
      (substitute a.toList 2 (phraseImage d a.toList readWrite)
        (front.foldl (phraseIfImage d) x)) := by
    rw [hparams, List.foldl_append]
    rfl
  rw [phraseUses_eq, hfold]
  exact (hbuffers.markers (hback.markers (hpass.markers (hfront.markers hx)))).dropMarkers

end Parameters

section Uses

/-- A subscript of an image with a row and a column. -/
def imageSubscript (name row col : List Char) : List Char :=
  name ++ '[' :: (row ++ ']' :: '[' :: (col ++ [']']))

variable {ns : List (List Char)} {a : List Char} {g : List Char → List Char} {d : Dialect}
  {readWrite : Bool} {f : Subscript → List Char} {op : Option Char}
  {sign r c v w x y z t : List Char}

theorem Foreign.imageSubscript (hg : Foreign a ns g) (hr : Balanced r) (hc : Balanced c) :
    g (imageSubscript a r c ++ y) = Body.imageSubscript a (g r) (g c) ++ g y := by
  have h : g (a ++ '[' :: (r ++ ']' :: '[' :: (c ++ ']' :: y))) =
      a ++ '[' :: (g r ++ ']' :: '[' :: (g c ++ ']' :: g y)) := by
    rw [hg.target, hg.stop hr rfl, hg.plain rfl rfl, hg.stop hc rfl]
  simpa [Body.imageSubscript] using h

theorem occurrence?_imageSubscript (ha : isIdentifier a = true) (hr : Balanced r)
    (hc : Balanced c) :
    occurrence? a 2 none (imageSubscript a r c ++ z) =
      some ((assignment? z).elim (⟨[r, c], none⟩, z) fun p => (⟨[r, c], some p.1⟩, p.2)) := by
  have hcol : indexGroups 1 ('[' :: (c ++ ']' :: z)) = ([c], z) :=
    indexGroups_cons (w := []) blank_nil hc rfl
  have hrow : indexGroups 2 ('[' :: (r ++ ']' :: '[' :: (c ++ ']' :: z))) = ([r, c], z) := by
    rw [show '[' :: (r ++ ']' :: '[' :: (c ++ ']' :: z)) = [] ++ '[' :: (r ++ ']' :: '[' ::
      (c ++ ']' :: z)) from rfl, indexGroups_cons blank_nil hr rfl, hcol]
  have h := occurrence?_name ha (b := none) rfl rfl hrow
  simpa [imageSubscript] using h

/-- The pass for an image at an assignment to one of its subscripts. -/
theorem substitute_store (ha : isIdentifier a = true) (hr : Balanced r) (hc : Balanced c)
    (hs : Sign op sign) (hv : IsValue v) :
    substitute a 2 f (imageSubscript a r c ++ ' ' :: (sign ++ ' ' :: (v ++ ';' :: t))) =
      f ⟨[substitute a 2 f r, substitute a 2 f c], some ⟨op, substitute a 2 f (trim v)⟩⟩ ++
        ';' :: substitute a 2 f t := by
  have hblank : Blank [' '] := by simp [Blank]; rfl
  have hval : IsValue (' ' :: v) := hv
  have htrim : trim (' ' :: v) = trim v := rfl
  have hassign : assignment? (' ' :: (sign ++ ' ' :: (v ++ ';' :: t))) =
      some (⟨op, trim v⟩, ';' :: t) :=
    htrim ▸ assignment?_of_stop hblank hs hval (by simp) rfl
  have ho := occurrence?_imageSubscript ha hr hc (z := ' ' :: (sign ++ ' ' :: (v ++ ';' :: t)))
  rw [hassign] at ho
  unfold substitute
  rw [substituteFrom_use ha ho, substituteFrom_stop_cons ha rfl]
  rfl

/-- The pass for an image at a subscript that is not assigned to. -/
theorem substitute_load (ha : isIdentifier a = true) (hr : Balanced r) (hc : Balanced c)
    (hw : assignSign? w = none) : substitute a 2 f (imageSubscript a r c ++ w) =
      f ⟨[substitute a 2 f r, substitute a 2 f c], none⟩ ++ substitute a 2 f w := by
  have hassign : assignment? w = none := by rw [assignment?, hw]; rfl
  have ho := occurrence?_imageSubscript ha hr hc (z := w)
  rw [hassign] at ho
  unfold substitute
  rw [substituteFrom_use ha ho]
  rfl

theorem Foreign.sign_append (hg : Foreign a ns g) (hs : Sign op sign) :
    g (' ' :: (sign ++ ' ' :: y)) = ' ' :: (sign ++ ' ' :: g y) := by
  rw [hg.plain rfl rfl]
  cases hs with
  | plain => exact congrArg (' ' :: ·) ((hg.plain rfl rfl).trans (congrArg _ (hg.plain rfl rfl)))
  | @joined c hc =>
    have hm : isMark c = true := by simp [isMark, hc]
    have hd : c ≠ '.' := by
      rintro rfl
      cases hc
    show ' ' :: g (c :: '=' :: ' ' :: y) = ' ' :: c :: '=' :: ' ' :: g y
    rw [hg.plain (not_start_of_mark hm) (joinsName_of_mark hm hd), hg.plain rfl rfl,
      hg.plain rfl rfl]

/-- A pass for other names reaches the parts of a phrase only. -/
theorem Foreign.phraseImage {s : Subscript} (hg : Foreign a ns g) (ha : isIdentifier a = true)
    (hs : s.WellFormed) (hd : ∀ x ∈ s.indices, ∀ n ∈ ns, ¬ Dangles n none x)
    (hlen : s.indices.length ≤ 2) : g (phraseImage d a readWrite s ++ y) =
      Body.phraseImage d a readWrite (s.map g) ++ g y := by
  obtain ⟨is, assign⟩ := s
  simp only [Body.phraseImage, Subscript.map]
  rcases assign with _ | ⟨_ | op, v⟩
  · exact hg.imageLoad ha hs.indices hd hlen
  · exact hg.imageStore ha hs.indices hd hlen (hs.value _ rfl).balanced
  · have hv : Balanced v := (hs.value _ rfl).balanced
    have hop : isOperator op = true := hs.op _ rfl op rfl
    have hm : isMark op = true := by simp [isMark, hop]
    have hne : op ≠ '.' := by
      rintro rfl
      cases hop
    have hvalue :
        g (d.imageLoad a (imageCoords is) readWrite ++ [' ', op, ' ', '('] ++ v ++ [')']) =
          d.imageLoad a (imageCoords (is.map g)) readWrite ++ [' ', op, ' ', '('] ++ g v ++
            [')'] := by
      simp only [List.append_assoc, List.cons_append, List.nil_append]
      rw [hg.imageLoad ha hs.indices hd hlen, hg.plain rfl rfl,
        hg.plain (not_start_of_mark hm) (joinsName_of_mark hm hne), hg.plain rfl rfl,
        hg.plain rfl rfl, hg.stop hv rfl, hg.nil]
    have hbal : Balanced (d.imageLoad a (imageCoords is) readWrite ++ [' ', op, ' ', '('] ++ v ++
        [')']) := by
      have hload : Balanced (d.imageLoad a (imageCoords is) readWrite) :=
        balanced_imageLoad ha (balanced_text hs.indices)
      simpa [Body.call] using hload.append (balanced_operation hop hv)
    have hstore := hg.imageStore (d := d) (y := y) ha hs.indices hd hlen hbal
    rw [hvalue] at hstore
    exact hstore

theorem markerFree_imageSubscript (ha : isIdentifier a = true) (hr : MarkerFree r)
    (hc : MarkerFree c) (hy : MarkerFree y) : MarkerFree (imageSubscript a r c ++ y) := by
  have hname : MarkerFree a := by
    refine markerFree_of_count ?_
    rw [count_dot_name ha]
    exact Nat.zero_le 1
  have hopen : MarkerFree ['['] := by decide
  have hnext : MarkerFree [']', '['] := by decide
  have hclose : MarkerFree [']'] := by decide
  have hcol := hc.append (hclose.append hy (.inl rfl)) (.inr rfl)
  have hrow := hr.append (hnext.append hcol (.inl rfl)) (.inr rfl)
  simpa [imageSubscript] using hname.append (hopen.append hrow (.inl rfl)) (.inr rfl)

/-- A text that goes on with an assignment. -/
def StartsAssignment (w : List Char) : Prop :=
  (∃ r, trimStart w = '=' :: r ∧ r.head? ≠ some '=') ∨
    ∃ op r, isOperator op = true ∧ trimStart w = op :: '=' :: r

theorem assignSign?_of_not_starts (h : ¬ StartsAssignment w) : assignSign? w = none := by
  rcases ht : trimStart w with _ | ⟨c, _ | ⟨e, r⟩⟩
  · simp [assignSign?, ht]
  · rw [assignSign?_single ht, if_neg]
    rintro rfl
    exact h (.inl ⟨[], ht, by simp⟩)
  · rw [assignSign?_cons_cons ht]
    by_cases hc : c = '='
    · subst hc
      by_cases he : e = '='
      · simp [he]
      · exact absurd (.inl ⟨e :: r, ht, by simpa using he⟩) h
    · rw [if_neg hc, if_neg]
      rintro ⟨rfl, ho⟩
      exact h (.inr ⟨c, r, ho, ht⟩)

end Uses

section Main

/-- A text that may be an index or a value: its brackets match, it has no uniform marker, and no use
of a parameter in it assigns nothing. -/
structure Operand (params : List (String × Form)) (x : List Char) : Prop where
  balanced : Balanced x
  markerFree : MarkerFree x
  assigns : ∀ p ∈ params, assignsNothing p.1.toList p.2.maxIndices none x = false

variable {params : List (String × Form)} {d : Dialect} {a : String} {readWrite : Bool}
  {op : Option Char} {sign r c v w t : List Char}

theorem Operand.not_dangles {before g : List Char → List Char}
    (hid : ∀ p ∈ params, isIdentifier p.1.toList = true) (hb : Pass (bufferNames params) before)
    (hg : Pass (bufferNames params) g) {x : List Char} (hx : Operand params x) :
    ∀ n ∈ bufferNames params, ¬ Dangles n none (g (before x)) := fun n hn hd =>
  Body.not_dangles hid hx.assigns n hn
    (hb.dangles hn hx.balanced (hg.dangles hn (hb.balanced hx.balanced) hd))

theorem Sign.markerFree (hs : Sign op sign) (hv : MarkerFree v) (ht : MarkerFree t) :
    MarkerFree (' ' :: (sign ++ ' ' :: (v ++ ';' :: t))) := by
  have hsign : MarkerFree (' ' :: (sign ++ [' '])) := by
    refine markerFree_of_count ?_
    cases hs with
    | plain => decide
    | @joined c hc =>
      have hne : c ≠ '.' := by
        rintro rfl
        cases hc
      simp [hne]
  have hend : MarkerFree [';'] := by decide
  have hrest := hv.append (hend.append ht (.inl rfl)) (.inr rfl)
  have hall := hsign.append hrest (.inl (by simp [List.getLast?_cons]; rfl))
  simpa using hall

/-- An assignment to a subscript of an image is translated part by part. -/
theorem phraseUses_store (hid : ∀ p ∈ params, isIdentifier p.1.toList = true)
    (hnd : (params.map Prod.fst).Nodup) (ha : (a, .image readWrite) ∈ params)
    (hr : Operand params r) (hc : Operand params c) (hv : Operand params v) (hstop : IsValue v)
    (hs : Sign op sign) (ht : MarkerFree t) :
    phraseUses d params (imageSubscript a.toList r c ++ ' ' :: (sign ++ ' ' :: (v ++ ';' :: t))) =
      phraseImage d a.toList readWrite ⟨[phraseUses d params r, phraseUses d params c],
        some ⟨op, phraseUses d params (trim v)⟩⟩ ++ ';' :: phraseUses d params t := by
  have hname := hid _ ha
  obtain ⟨before, after, hb, hf, hp, hR⟩ := exists_passes (d := d) hid hnd ha
  have htrim : MarkerFree (trim v) := hv.markerFree.of_isInfix (isInfix_trim v)
  have htext := markerFree_imageSubscript hname hr.markerFree hc.markerFree
    (hs.markerFree hv.markerFree ht)
  rw [hR _ htext, hR r hr.markerFree, hR c hc.markerFree, hR _ htrim, hR t ht,
    hb.imageSubscript hr.balanced hc.balanced, hb.sign_append hs, hb.stop hv.balanced rfl,
    substitute_store hname (hb.balanced hr.balanced) (hb.balanced hc.balanced) hs (hb.value hstop),
    ← hb.trim hv.balanced (not_dangles hid hv.assigns), hf.phraseImage hname, hf.plain rfl rfl]
  · rfl
  · refine ⟨?_, ?_, ?_⟩
    · simpa using ⟨hp.balanced (hb.balanced hr.balanced), hp.balanced (hb.balanced hc.balanced)⟩
    · simpa using hp.value (hb.value (level?_trim hstop))
    · cases hs with
      | plain => simp
      | joined ho => simpa using ho
  · simpa using ⟨hr.not_dangles hid hb.toPass hp, hc.not_dangles hid hb.toPass hp⟩
  · simp

/-- So is a subscript that is not assigned to. -/
theorem phraseUses_load (hid : ∀ p ∈ params, isIdentifier p.1.toList = true)
    (hnd : (params.map Prod.fst).Nodup) (ha : (a, .image readWrite) ∈ params)
    (hr : Operand params r) (hc : Operand params c) (hw : MarkerFree w)
    (hs : assignSign? w = none) :
    phraseUses d params (imageSubscript a.toList r c ++ w) =
      phraseImage d a.toList readWrite ⟨[phraseUses d params r, phraseUses d params c], none⟩ ++
        phraseUses d params w := by
  have hname := hid _ ha
  obtain ⟨before, after, hb, hf, hp, hR⟩ := exists_passes (d := d) hid hnd ha
  have htext := markerFree_imageSubscript hname hr.markerFree hc.markerFree hw
  rw [hR _ htext, hR r hr.markerFree, hR c hc.markerFree, hR w hw,
    hb.imageSubscript hr.balanced hc.balanced,
    substitute_load hname (hb.balanced hr.balanced) (hb.balanced hc.balanced) (hb.sign hs),
    hf.phraseImage hname]
  · rfl
  · refine ⟨?_, by simp, by simp⟩
    simpa using ⟨hp.balanced (hb.balanced hr.balanced), hp.balanced (hb.balanced hc.balanced)⟩
  · simpa using ⟨hr.not_dangles hid hb.toPass hp, hc.not_dangles hid hb.toPass hp⟩
  · simp

/-- What becomes of a subscript of an image is made of what becomes of its parts. An assignment
becomes a store of the value, or of what the operator makes of the texel and the value; any other
use becomes a load. The position has the column first. -/
theorem phraseUses_imageSubscript (d : Dialect) (params : List (String × Form))
    (hid : ∀ p ∈ params, isIdentifier p.1.toList = true) (hnd : (params.map Prod.fst).Nodup)
    (a : String) (readWrite : Bool) (ha : (a, .image readWrite) ∈ params) (r c v : List Char)
    (hr : Operand params r) (hc : Operand params c) (hv : Operand params v) (hstop : IsValue v) :
    let R := phraseUses d params
    let place := Coords.rowCol (trim (R r)) (trim (R c))
    let load := d.imageLoad a.toList place readWrite
    (∀ t, MarkerFree t →
      R (imageSubscript a.toList r c ++ " = ".toList ++ v ++ ';' :: t) =
        d.imageStore a.toList place (R (trim v)) ++ ';' :: R t) ∧
    (∀ op t, isOperator op = true → MarkerFree t →
      R (imageSubscript a.toList r c ++ [' ', op, '=', ' '] ++ v ++ ';' :: t) =
        d.imageStore a.toList place (load ++ [' ', op, ' ', '('] ++ R (trim v) ++ [')']) ++
          ';' :: R t) ∧
    (∀ w, MarkerFree w → ¬ StartsAssignment w →
      R (imageSubscript a.toList r c ++ w) = load ++ R w) ∧
    place.text d = call (pairWord d)
      (call (coordWord d) (trim (R c)) ++ (", ".toList ++ call (coordWord d) (trim (R r)))) := by
  refine ⟨fun t ht => ?_, fun op t hop ht => ?_, fun w hw hs => ?_, text_rowCol⟩
  · have h := phraseUses_store (d := d) hid hnd ha hr hc hv hstop .plain ht
    simpa [phraseImage, imageCoords] using h
  · have h := phraseUses_store (d := d) hid hnd ha hr hc hv hstop (.joined hop) ht
    simpa [phraseImage, imageCoords] using h
  · exact phraseUses_load hid hnd ha hr hc hw (assignSign?_of_not_starts hs)

/-- An element of a buffer as the row, and a load from the image itself in the value. -/
theorem phraseUses_imageSubscript_nested :
    let params := [("m", Form.buffer), ("a", .image false)]
    let R := phraseUses .glsl params
    (Operand params "m[i]".toList ∧ Operand params " j ".toList ∧
      Operand params "a[0][1] + m[2]".toList ∧ IsValue "a[0][1] + m[2]".toList) ∧
    R (imageSubscript "a".toList "m[i]".toList " j ".toList ++ [' ', '*', '=', ' '] ++
        "a[0][1] + m[2]".toList ++ ';' :: "m[1] = 0;".toList) =
      Dialect.imageStore .glsl "a".toList (.rowCol (trim (R "m[i]".toList)) (trim (R " j ".toList)))
        (Dialect.imageLoad .glsl "a".toList
            (.rowCol (trim (R "m[i]".toList)) (trim (R " j ".toList))) false ++
          [' ', '*', ' ', '('] ++ R (trim "a[0][1] + m[2]".toList) ++ [')']) ++
        ';' :: R "m[1] = 0;".toList := by
  have hr : Operand [("m", Form.buffer), ("a", .image false)] "m[i]".toList :=
    ⟨by decide, markerFree_of_count (by decide), by decide⟩
  have hc : Operand [("m", Form.buffer), ("a", .image false)] " j ".toList :=
    ⟨by decide, markerFree_of_count (by decide), by decide⟩
  have hv : Operand [("m", Form.buffer), ("a", .image false)] "a[0][1] + m[2]".toList :=
    ⟨by decide, markerFree_of_count (by decide), by decide⟩
  have hstop : IsValue "a[0][1] + m[2]".toList := by decide
  exact ⟨⟨hr, hc, hv, hstop⟩, (phraseUses_imageSubscript .glsl _ (by decide) (by decide) "a" false
    (by decide) _ _ _ hr hc hv hstop).2.1 '*' _ rfl (markerFree_of_count (by decide))⟩

end Main

end ComputeKernel.Body
