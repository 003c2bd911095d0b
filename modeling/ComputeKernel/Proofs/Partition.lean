import ComputeKernel.Proofs.Cutting
import ComputeKernel.Proofs.Division

/-!
# Hoisting divides a text

Each kind of hoisting takes spans out of a text and leaves the rest as it stands. The spans are
described by themselves (`IsShared`, `IsHelper`, `IsConstant`), and each reader reads exactly the
spans of its kind (`sharedVariable?_iff`, `takesHelper_iff`, `takesConstant_iff`). Shared variables
and constants are found wherever they stand outside another span; helpers are found up to a heading
without a complete function after it.

Constants hoisted once are hoisted for good: where the rest of a text has no end of a statement,
nothing is hoisted (`hoistConstantsFrom_of_none`), and no heading of a constant comes about where
the spans were (`Cut.atConst`).
-/

namespace ComputeKernel.Body

open Text

section Readers

variable {w x r rest v name : List Char} {e c : Char}

theorem after?_eq_some_iff : after? w x = some r ↔ x = w ++ r :=
  ⟨after?_eq_some, fun h => h ▸ after?_self w r⟩

theorem trimStart_eq_cons_iff (he : isBlank e = false) :
    trimStart x = e :: r ↔ ∃ w, Blank w ∧ x = w ++ e :: r := by
  constructor
  · intro h
    obtain ⟨w, hw, hx, -⟩ := exists_trimStart x
    exact ⟨w, hw, h ▸ hx⟩
  · rintro ⟨w, hw, rfl⟩
    rw [trimStart_append hw]
    exact trimStart_of_head (by simpa using he)

/-- What stands before the first `e` and after it. -/
theorem dropWhile_ne_eq_cons_iff :
    x.dropWhile (· != e) = c :: r ↔ c = e ∧ ∃ v, e ∉ v ∧ x = v ++ e :: r := by
  constructor
  · intro h
    have hc : c = e := by
      have hnot := List.head?_dropWhile_not (· != e) x
      rw [h] at hnot
      simpa using hnot
    subst hc
    refine ⟨rfl, x.takeWhile (· != c), fun hm => ?_, ?_⟩
    · simpa using List.all_eq_true.1 List.all_takeWhile c hm
    · rw [← h, List.takeWhile_append_dropWhile]
  · rintro ⟨rfl, v, hv, rfl⟩
    rw [List.dropWhile_append_of_pos fun d hd => by simpa using fun h : d = c => hv (h ▸ hd)]
    simp

theorem takeWhile_ne_append (hv : e ∉ v) : (v ++ e :: r).takeWhile (· != e) = v := by
  rw [List.takeWhile_append_of_pos fun d hd => by simpa using fun h : d = e => hv (h ▸ hd)]
  simp

theorem identifier?_iff : identifier? x = some (name, r) ↔
    isIdentifier name = true ∧ r.head?.any isIdent = false ∧ x = name ++ r := by
  constructor
  · intro h
    refine ⟨isIdentifier_of_identifier? h, ?_, identifier?_eq h⟩
    cases x with
    | nil => cases h
    | cons c x =>
      rw [identifier?] at h
      split at h
      · cases h
        cases hd : x.dropWhile isIdent with
        | nil => rfl
        | cons d y =>
          have hnot := List.head?_dropWhile_not isIdent x
          rw [hd] at hnot
          simpa using hnot
      · cases h
  · rintro ⟨hn, hr, rfl⟩
    obtain ⟨n, ns, rfl, hs, hi⟩ := identifier_cons hn
    have hstop : r.takeWhile isIdent = [] ∧ r.dropWhile isIdent = r := by
      cases r with
      | nil => exact ⟨rfl, rfl⟩
      | cons d r =>
        have hd : isIdent d = false := by simpa using hr
        simp [hd]
    rw [List.cons_append, identifier?, if_pos hs, List.takeWhile_append_of_pos hi,
      List.dropWhile_append_of_pos hi, hstop.1, hstop.2, List.append_nil]

/-- A word, a name after it and the character `e` after that, all with blanks between them. -/
theorem named_iff {cs inner : List Char} (hb : isBlank e = false) (hi : isIdent e = false) :
    (∃ r r', after? w cs = some r ∧ r.head?.any isBlank = true ∧
      identifier? (trimStart r) = some (name, r') ∧ trimStart r' = e :: inner) ↔
    ∃ v v', Blank v ∧ v ≠ [] ∧ isIdentifier name = true ∧ Blank v' ∧
      cs = w ++ (v ++ (name ++ (v' ++ e :: inner))) := by
  constructor
  · rintro ⟨r, r', hr, hblank, hid, ht⟩
    obtain ⟨hn, -, htrim⟩ := identifier?_iff.1 hid
    obtain ⟨v', hv', rfl⟩ := (trimStart_eq_cons_iff hb).1 ht
    obtain ⟨v, hv, hrv, hhead⟩ := exists_trimStart r
    refine ⟨v, v', hv, ?_, hn, hv', ?_⟩
    · rintro rfl
      rw [hrv, List.nil_append, hhead] at hblank
      cases hblank
    · rw [← htrim, ← hrv, after?_eq_some hr]
  · rintro ⟨v, v', hv, hne, hn, hv', rfl⟩
    refine ⟨_, v' ++ e :: inner, after?_self w _, ?_, ?_,
      (trimStart_eq_cons_iff hb).2 ⟨v', hv', rfl⟩⟩
    · obtain ⟨c, v, rfl⟩ := List.exists_cons_of_ne_nil hne
      exact hv c List.mem_cons_self
    · have hname : trimStart (v ++ (name ++ (v' ++ e :: inner))) = name ++ (v' ++ e :: inner) := by
        rw [trimStart_append hv]
        obtain ⟨n, ns, rfl, hs, -⟩ := identifier_cons hn
        exact trimStart_of_head (by simpa using not_blank_of_ident (isIdent_of_start hs))
      rw [hname]
      exact identifier?_iff.2 ⟨hn, head?_ident_blank hv' hi, rfl⟩

/-- A text that goes on with a `;` begins with a blank only if it does so without it. -/
theorem head?_blank_append :
    (v ++ ';' :: r).head?.any isBlank = v.head?.any isBlank := by
  cases v with
  | nil => rfl
  | cons c v => rfl

end Readers

section Shared

/-- The declaration of shared memory, up to the first `;`. -/
inductive IsShared : Dialect → List Char → Prop
  | wgsl {w₁ w₂ w₃ v : List Char} (h₁ : Blank w₁) (h₂ : Blank w₂) (h₃ : Blank w₃) (hv : ';' ∉ v) :
    IsShared .wgsl ("var".toList ++ (w₁ ++ '<' :: (w₂ ++ ("workgroup".toList ++
      (w₃ ++ '>' :: (v ++ [';']))))))
  | glsl {v : List Char} (hb : v.head?.any isBlank = true) (hv : ';' ∉ v) :
    IsShared .glsl ("shared".toList ++ (v ++ [';']))

variable {d : Dialect} {b : Option Char} {cs r rest : List Char}

theorem opening?_wgsl_append {w₁ w₂ w₃ : List Char} (h₁ : Blank w₁) (h₂ : Blank w₂)
    (h₃ : Blank w₃) :
    sharedVariable?.opening? .wgsl ("var".toList ++ (w₁ ++ '<' :: (w₂ ++ ("workgroup".toList ++
      (w₃ ++ '>' :: r))))) = some r := by
  have hword : ∀ z, "workgroup".toList ++ z = 'w' :: ("orkgroup".toList ++ z) := fun z => by
    rw [show "workgroup".toList = 'w' :: "orkgroup".toList by decide]
    rfl
  have hopen : trimStart (w₁ ++ '<' :: (w₂ ++ ("workgroup".toList ++ (w₃ ++ '>' :: r)))) =
      '<' :: (w₂ ++ ("workgroup".toList ++ (w₃ ++ '>' :: r))) :=
    (trimStart_eq_cons_iff rfl).2 ⟨w₁, h₁, rfl⟩
  have hspace : trimStart (w₂ ++ ("workgroup".toList ++ (w₃ ++ '>' :: r))) =
      "workgroup".toList ++ (w₃ ++ '>' :: r) := by
    rw [hword]
    exact (trimStart_eq_cons_iff rfl).2 ⟨w₂, h₂, rfl⟩
  have hclose : trimStart (w₃ ++ '>' :: r) = '>' :: r :=
    (trimStart_eq_cons_iff rfl).2 ⟨w₃, h₃, rfl⟩
  simp only [sharedVariable?.opening?, after?_self, Option.map_some, hopen, hspace, hclose]

/-- A declaration with a first `;` after its opening. -/
theorem isShared_append_iff : (∃ span, cs = span ++ rest ∧ IsShared d span) ↔
    ∃ v, ';' ∉ v ∧ sharedVariable?.opening? d cs = some (v ++ ';' :: rest) := by
  constructor
  · rintro ⟨span, rfl, h⟩
    cases h with
    | @wgsl w₁ w₂ w₃ v h₁ h₂ h₃ hv =>
      refine ⟨v, hv, ?_⟩
      rw [← opening?_wgsl_append h₁ h₂ h₃]
      simp
    | @glsl v hb hv =>
      refine ⟨v, hv, ?_⟩
      simp only [List.append_assoc, List.singleton_append, sharedVariable?.opening?, after?_self,
        head?_blank_append, hb, if_true]
  · rintro ⟨v, hv, h⟩
    cases d with
    | wgsl =>
      obtain ⟨u, w₂, w₃, ⟨w₁, h₁, rfl⟩, h₂, h₃, rfl⟩ := opening?_wgsl h
      exact ⟨_, by simp, .wgsl h₁ h₂ h₃ hv⟩
    | glsl =>
      obtain ⟨rfl, hb⟩ := opening?_glsl h
      exact ⟨_, by simp, .glsl (head?_blank_append ▸ hb) hv⟩

theorem sharedVariable?_iff (a : Unit) : sharedVariable? d b cs = some (a, rest) ↔
    ∃ span, cs = span ++ rest ∧ atWordStart b = true ∧ IsShared d span := by
  have hright : (∃ span, cs = span ++ rest ∧ atWordStart b = true ∧ IsShared d span) ↔
      atWordStart b = true ∧ ∃ span, cs = span ++ rest ∧ IsShared d span :=
    ⟨fun ⟨span, h, hb, hs⟩ => ⟨hb, span, h, hs⟩, fun ⟨hb, span, h, hs⟩ => ⟨span, h, hb, hs⟩⟩
  rw [hright, isShared_append_iff]
  unfold sharedVariable?
  constructor
  · intro h
    split at h
    · cases h
    rename_i hb
    split at h
    · cases h
    rename_i r hr
    split at h
    · rename_i rest' hd
      cases h
      obtain ⟨-, v, hv, rfl⟩ := dropWhile_ne_eq_cons_iff.1 hd
      exact ⟨by simpa using hb, v, hv, hr⟩
    · cases h
  · rintro ⟨hb, v, hv, hr⟩
    have hd : (v ++ ';' :: rest).dropWhile (· != ';') = ';' :: rest :=
      dropWhile_ne_eq_cons_iff.2 ⟨rfl, v, hv, rfl⟩
    simp only [hb, hr, hd, Bool.not_true, Bool.false_eq_true, if_false]

/-- A declaration of shared memory that starts a word. -/
def FindsShared (d : Dialect) (u span _rest : List Char) (_ : Unit) : Prop :=
  atWordStart u.getLast? = true ∧ IsShared d span

theorem divides_hoistShared (d : Dialect) (text : List Char) :
    ∃ ps, Divides (FindsShared d) (NothingAt (FindsShared d)) [] text ps ∧
      hoistShared d text = (remaining ps, (takenOut ps).map Prod.fst) := by
  refine ⟨cut (sharedVariable? d) none text, ?_, ?_⟩
  · refine divides_cut (fun b span _ _ => atWordStart b = true ∧ IsShared d span)
      (fun b cs a rest => sharedVariable?_iff a) (fun b span _ a h => ?_) [] text
    cases h.2 <;> simp
  · refine Prod.ext ?_ ?_
    · refine congrArg (List.flatMap · _) (funext fun piece => ?_)
      cases piece <;> rfl
    · rw [takenOut, List.map_filterMap]
      refine congrArg (List.filterMap · _) (funext fun piece => ?_)
      cases piece <;> rfl

end Shared

section Helpers

/-- A text that begins with the heading `function NAME (`, with the text inside its bracket. -/
def Heads (name inner cs : List Char) : Prop :=
  ∃ w w', Blank w ∧ w ≠ [] ∧ isIdentifier name = true ∧ Blank w' ∧
    cs = "function".toList ++ (w ++ (name ++ (w' ++ '(' :: inner)))

/-- A helper as it is written: from its heading to the bracket that closes the first `{` after its
arguments. -/
inductive IsHelper : List Char → Helper → Prop
  | mk {name args between inside span : List Char} {k k' : Char}
    (hhead : Heads name (args ++ k :: (between ++ '{' :: (inside ++ [k']))) span)
    (ha : Balanced args) (hk : isClose k = true) (hb : '{' ∉ between) (hi : Balanced inside)
    (hk' : isClose k' = true) :
    IsHelper span ⟨name, trim args, helperResult? between, '{' :: (inside ++ [k'])⟩

variable {b : Option Char} {name inner cs rest : List Char} {h : Helper}

theorem helperOpening?_iff :
    helperOpening? b cs = some (name, inner) ↔ atWordStart b = true ∧ Heads name inner cs := by
  unfold helperOpening?
  constructor
  · intro h
    split at h
    · cases h
    rename_i hb
    split at h
    · cases h
    rename_i r hr
    split at h
    · cases h
    rename_i hblank
    split at h
    · cases h
    rename_i name' r' hi
    split at h
    · rename_i inner' ht
      cases h
      exact ⟨by simpa using hb, (named_iff rfl rfl).1 ⟨r, r', hr, by simpa using hblank, hi, ht⟩⟩
    · cases h
  · rintro ⟨hb, h⟩
    obtain ⟨r, r', hr, hblank, hi, ht⟩ := (named_iff rfl rfl).2 h
    simp only [hb, hr, hblank, hi, ht, Bool.not_true, Bool.false_eq_true, if_false]

theorem readHelper?_iff : readHelper? name inner = some (h, rest) ↔
    ∃ args k between inside k', Balanced args ∧ isClose k = true ∧ '{' ∉ between ∧ Balanced inside ∧
      isClose k' = true ∧ inner = args ++ k :: (between ++ '{' :: (inside ++ k' :: rest)) ∧
      h = ⟨name, trim args, helperResult? between, '{' :: (inside ++ [k'])⟩ := by
  have hblock : ∀ (inside rest : List Char) (k' : Char),
      consumed ('{' :: (inside ++ k' :: rest)) rest = '{' :: (inside ++ [k']) := by
    intro inside rest k'
    rw [show '{' :: (inside ++ k' :: rest) = ('{' :: (inside ++ [k'])) ++ rest by simp,
      consumed_append]
  unfold readHelper?
  constructor
  · intro hr
    split at hr
    · cases hr
    rename_i args r hs
    obtain ⟨ha, k, hk, rfl⟩ := splitClose_level hs
    split at hr
    · cases hr
    rename_i brace block hd
    obtain ⟨rfl, between, hbetween, rfl⟩ := dropWhile_ne_eq_cons_iff.1 hd
    split at hr
    · cases hr
    rename_i inside rest' hs'
    obtain ⟨hi, k', hk', rfl⟩ := splitClose_level hs'
    cases hr
    exact ⟨args, k, between, inside, k', ha, hk, hbetween, hi, hk', rfl,
      by rw [takeWhile_ne_append hbetween, hblock]⟩
  · rintro ⟨args, k, between, inside, k', ha, hk, hb, hi, hk', rfl, rfl⟩
    have hd : (between ++ '{' :: (inside ++ k' :: rest)).dropWhile (· != '{') =
        '{' :: (inside ++ k' :: rest) := dropWhile_ne_eq_cons_iff.2 ⟨rfl, between, hb, rfl⟩
    simp only [splitClose_of_level ha hk, hd, splitClose_of_level hi hk', takeWhile_ne_append hb,
      hblock]

/-- A helper is taken out where one is written. -/
theorem takesHelper_iff :
    (∃ name inner, helperOpening? b cs = some (name, inner) ∧
      readHelper? name inner = some (h, rest)) ↔
    ∃ span, cs = span ++ rest ∧ atWordStart b = true ∧ IsHelper span h := by
  constructor
  · rintro ⟨name, inner, ho, hr⟩
    obtain ⟨hb, w, w', hw, hne, hn, hw', rfl⟩ := helperOpening?_iff.1 ho
    obtain ⟨args, k, between, inside, k', ha, hk, hbe, hi, hk', rfl, rfl⟩ := readHelper?_iff.1 hr
    exact ⟨"function".toList ++ (w ++ (name ++ (w' ++ '(' ::
      (args ++ k :: (between ++ '{' :: (inside ++ [k'])))))), by simp, hb,
      .mk ⟨w, w', hw, hne, hn, hw', rfl⟩ ha hk hbe hi hk'⟩
  · rintro ⟨span, rfl, hb, hspan⟩
    cases hspan with
    | @mk name args between inside _ k k' hhead ha hk hbe hi hk' =>
      obtain ⟨w, w', hw, hne, hn, hw', rfl⟩ := hhead
      exact ⟨name, _, helperOpening?_iff.2 ⟨hb, w, w', hw, hne, hn, hw', by simp; rfl⟩,
        readHelper?_iff.2 ⟨args, k, between, inside, k', ha, hk, hbe, hi, hk', by simp, rfl⟩⟩

theorem IsHelper.getLast? {span : List Char} (hs : IsHelper span h) :
    ∃ k, isClose k = true ∧ span.getLast? = some k := by
  cases hs with
  | @mk _ _ _ _ _ _ k hhead _ _ _ _ hk =>
    obtain ⟨w, w', -, -, -, -, rfl⟩ := hhead
    exact ⟨k, hk, by simp [List.getLast?_append, List.getLast?_cons]⟩

/-- A helper that starts a word. -/
def FindsHelper (u span _rest : List Char) (h : Helper) : Prop :=
  atWordStart u.getLast? = true ∧ IsHelper span h

/-- A heading without a complete function after it. -/
def Unfinished (u x : List Char) : Prop :=
  atWordStart u.getLast? = true ∧ (∃ name inner, Heads name inner x) ∧ NothingAt FindsHelper u x

/-- Where a character is left by the search for helpers: no helper is written there, or the search
has ended at a heading before. -/
def LeftByHelpers (u x : List Char) : Prop :=
  NothingAt FindsHelper u x ∨ ∃ v y, v <+: u ∧ u ++ x = v ++ y ∧ Unfinished v y

theorem nothingAt_helper {u : List Char} (hu : atWordStart b = atWordStart u.getLast?)
    (hno : ∀ name inner h rest, helperOpening? b cs = some (name, inner) →
      readHelper? name inner ≠ some (h, rest)) : NothingAt FindsHelper u cs := by
  rintro span rest h rfl ⟨hstart, hspan⟩
  obtain ⟨name, inner, ho, hr⟩ := takesHelper_iff.2 ⟨span, rfl, hu.trans hstart, hspan⟩
  exact hno name inner h rest ho hr

/-- The search for helpers divides a text. After a helper, `b` is the character that is left before
it; a word may start after both. -/
theorem divides_takeHelpers (u : List Char) (hu : atWordStart b = atWordStart u.getLast?)
    (cs : List Char) : ∃ ps, Divides FindsHelper LeftByHelpers u cs ps ∧
      takeHelpers b cs = (remaining ps, (takenOut ps).map Prod.snd) := by
  induction hl : cs.length using Nat.strongRecOn generalizing b u cs with
  | _ l ih =>
    cases cs with
    | nil =>
      rw [takeHelpers]
      exact ⟨[], .nil, rfl⟩
    | cons c r =>
      rw [takeHelpers]
      rcases ho : helperOpening? b (c :: r) with _ | ⟨name, inner⟩
      · obtain ⟨ps, hps, htake⟩ :=
          ih r.length (by simp [← hl]) (b := some c) (u ++ [c]) (by simp) r rfl
        refine ⟨.char c :: ps, .char (.inl (nothingAt_helper hu ?_)) hps, by rw [htake]; rfl⟩
        rw [ho]
        rintro _ _ _ _ ⟨⟩
      rcases hr : readHelper? name inner with _ | ⟨h, rest⟩
      · have hhead := helperOpening?_iff.1 ho
        have hno : NothingAt FindsHelper u (c :: r) := by
          refine nothingAt_helper hu fun name' inner' h rest ho' => ?_
          cases ho.symm.trans ho'
          rw [hr]
          rintro ⟨⟩
        refine ⟨(c :: r).map Piece.char, ?_, ?_⟩
        · have hall : Divides FindsHelper LeftByHelpers u (c :: r ++ [])
              ((c :: r).map Piece.char ++ []) := by
            refine Divides.keep_append (fun w y hwy _ => .inr
              ⟨u, c :: r, List.prefix_append _ _, ?_, hu ▸ hhead.1, ⟨name, inner, hhead.2⟩, hno⟩)
              .nil
            rw [hwy]
            simp
          simpa using hall
        · simp only [hr, remaining, filled_chars, takenOut_chars, List.map_nil]
      · obtain ⟨span, htext, hstart, hspan⟩ := takesHelper_iff.1 ⟨name, inner, ho, hr⟩
        obtain ⟨k, hk, hlast⟩ := hspan.getLast?
        have hlen : rest.length < (c :: r).length := length_lt_of_span htext
          (List.ne_nil_of_mem (List.mem_of_getLast? hlast))
        have hafter : atWordStart b = atWordStart (u ++ span).getLast? := by
          rw [List.getLast?_append, hlast, hstart, Option.some_or, atWordStart, Option.any_some,
            isWord_of_apart (isApart_of_stop (by simp [isStop, hk]))]
          rfl
        obtain ⟨ps, hps, htake⟩ := ih rest.length (hl ▸ hlen) (u ++ span) hafter rest rfl
        refine ⟨.found span h :: ps, ?_, ?_⟩
        · rw [htext]
          exact .found ⟨hu ▸ hstart, hspan⟩ hps
        · simp only [hr, if_pos hlen, htake]
          rfl

end Helpers

section Constants

/-- How many more brackets a text opens than it closes. -/
def depth (x : List Char) : Int := (x.countP isOpen : Int) - x.countP isClose

/-- The end of a statement that starts at level `l` stands after `x`, and not before. -/
def EndsAfter (l : Int) (x : List Char) : Prop :=
  l + depth x = 0 ∧ ∀ v w, x = v ++ ';' :: w → l + depth v ≠ 0

/-- A constant after the text `u`: it starts at level 0 with the word `const` and goes to the first
`;` at that level. -/
structure IsConstant (u span : List Char) : Prop where
  level : depth u = 0
  start : u.getLast?.any isIdent = false
  word : ∃ r, span = "const".toList ++ r ∧ r.head?.any isBlank = true
  ends : ∃ x, span = x ++ [';'] ∧ EndsAfter 0 x

variable {l : Int} {b b' : Option Char} {c : Char} {u x y r cs stmt rest : List Char}

theorem depth_append : depth (x ++ y) = depth x + depth y := by
  simp only [depth, List.countP_append]
  omega

theorem depth_cons : depth (c :: x) = depth [c] + depth x := depth_append (x := [c])

theorem depth_open (h : isOpen c = true) : depth [c] = 1 := by
  simp [depth, h, not_close_of_open h]

theorem depth_close (h : isClose c = true) : depth [c] = -1 := by
  simp [depth, h, not_open_of_close h]

theorem depth_other (ho : isOpen c = false) (hc : isClose c = false) : depth [c] = 0 := by
  simp [depth, ho, hc]

theorem splitStatement_end : splitStatement 0 (';' :: r) = some ([';'], r) := by
  rw [splitStatement]
  rfl

/-- A statement goes on over a character that does not end it. -/
theorem splitStatement_cons (h : ¬ (c = ';' ∧ l = 0)) : splitStatement l (c :: r) =
    (splitStatement (l + depth [c]) r).map fun p => (c :: p.1, p.2) := by
  rw [splitStatement]
  split
  · rename_i ho
    rw [depth_open ho]
  · rename_i ho
    rw [Bool.not_eq_true] at ho
    split
    · rename_i hc
      rw [depth_close hc]
      rfl
    · rename_i hc
      rw [Bool.not_eq_true] at hc
      rw [if_neg (by simpa using h), depth_other ho hc, Int.add_zero]

theorem endsAfter_cons (h : ¬ (c = ';' ∧ l = 0)) :
    EndsAfter l (c :: x) ↔ EndsAfter (l + depth [c]) x := by
  unfold EndsAfter
  rw [depth_cons, Int.add_assoc]
  refine and_congr_right fun _ => ⟨fun hno v w hx => ?_, fun hno v w hx => ?_⟩
  · have := hno (c :: v) w (by rw [hx]; rfl)
    rwa [depth_cons, ← Int.add_assoc] at this
  · cases v with
    | nil =>
      cases hx
      intro hl
      exact h ⟨rfl, by simpa [depth] using hl⟩
    | cons d v =>
      cases hx
      rw [depth_cons, ← Int.add_assoc]
      exact hno v w rfl

theorem splitStatement_iff : splitStatement l cs = some (stmt, rest) ↔
    ∃ x, stmt = x ++ [';'] ∧ cs = x ++ ';' :: rest ∧ EndsAfter l x := by
  induction cs generalizing l stmt with
  | nil => simp [splitStatement]
  | cons c r ih =>
    by_cases hend : c = ';' ∧ l = 0
    · obtain ⟨rfl, rfl⟩ := hend
      rw [splitStatement_end]
      constructor
      · intro h
        cases h
        exact ⟨[], rfl, rfl, rfl, by simp⟩
      · rintro ⟨x, rfl, hcs, hx⟩
        cases x with
        | nil =>
          cases hcs
          rfl
        | cons d x =>
          cases hcs
          exact absurd rfl (hx.2 [] x rfl)
    · rw [splitStatement_cons hend, Option.map_eq_some_iff]
      constructor
      · rintro ⟨⟨s, t⟩, hs, he⟩
        cases he
        obtain ⟨x, rfl, rfl, hx⟩ := ih.1 hs
        exact ⟨c :: x, rfl, rfl, (endsAfter_cons hend).2 hx⟩
      · rintro ⟨x, rfl, hcs, hx⟩
        cases x with
        | nil =>
          cases hcs
          exact absurd ⟨rfl, by simpa [depth] using hx.1⟩ hend
        | cons d x =>
          cases hcs
          exact ⟨(x ++ [';'], rest), ih.2 ⟨x, rfl, rfl, (endsAfter_cons hend).1 hx⟩, rfl⟩

theorem atConst_iff : atConst b cs = true ↔ b.any isIdent = false ∧
    ∃ r, cs = "const".toList ++ r ∧ r.head?.any isBlank = true := by
  unfold atConst
  cases ha : after? "const".toList cs with
  | none =>
    refine ⟨nofun, fun ⟨_, r, hr, _⟩ => ?_⟩
    rw [after?_eq_some_iff.2 hr] at ha
    cases ha
  | some r =>
    obtain rfl := after?_eq_some ha
    simp

/-- A constant is taken out where one is written. -/
theorem takesConstant_iff :
    (depth u = 0 ∧ atConst u.getLast? cs = true ∧ splitStatement 0 cs = some (stmt, rest)) ↔
      cs = stmt ++ rest ∧ IsConstant u stmt := by
  rw [atConst_iff, splitStatement_iff]
  constructor
  · rintro ⟨hu, ⟨hstart, r, hword, hblank⟩, x, rfl, hcs, hx⟩
    refine ⟨by simp [hcs], hu, hstart, ?_, x, rfl, hx⟩
    -- The word has no `;` in it and a blank after it, so it stands before the end of the statement.
    rcases List.append_eq_append_iff.1 (hword.symm.trans hcs) with ⟨z, rfl, rfl⟩ | ⟨z, hz, hrest⟩
    · exact ⟨z ++ [';'], by simp, by rwa [head?_blank_append] at hblank ⊢⟩
    · cases z with
      | nil =>
        cases hrest
        exact absurd hblank Bool.false_ne_true
      | cons c z =>
        cases hrest
        have hmem : ';' ∈ "const".toList := hz ▸ List.mem_append_right _ List.mem_cons_self
        exact absurd hmem (by decide)
  · rintro ⟨rfl, hu, hstart, ⟨r, rfl, hblank⟩, x, hx, hend⟩
    refine ⟨hu, ⟨hstart, r ++ rest, by simp, ?_⟩, x, hx, by rw [hx]; simp, hend⟩
    cases r with
    | nil => cases hblank
    | cons c r => exact hblank

theorem not_bracket_of_atConst (h : atConst b (c :: r) = true) :
    isOpen c = false ∧ isClose c = false := by
  obtain ⟨-, r', hr, -⟩ := atConst_iff.1 h
  rw [show "const".toList = 'c' :: "onst".toList by decide, List.cons_append, List.cons.injEq] at hr
  rw [hr.1]
  decide

/-- A character is left where no constant can be taken out. -/
theorem hoistConstantsFrom_keep
    (h : l = 0 → atConst b (c :: r) = true → splitStatement 0 (c :: r) = none) :
    hoistConstantsFrom l b (c :: r) = (c :: (hoistConstantsFrom (l + depth [c]) (some c) r).1,
      (hoistConstantsFrom (l + depth [c]) (some c) r).2) := by
  rw [hoistConstantsFrom]
  split
  · rename_i ho
    rw [depth_open ho]
  · rename_i ho
    rw [Bool.not_eq_true] at ho
    split
    · rename_i hc
      rw [depth_close hc]
      rfl
    · rename_i hc
      rw [Bool.not_eq_true] at hc
      rw [depth_other ho hc, Int.add_zero]
      split
      · rename_i hat
        rw [Bool.and_eq_true, beq_iff_eq] at hat
        rw [h hat.1 hat.2]
      · rfl

theorem hoistConstantsFrom_take (ha : atConst b cs = true)
    (hs : splitStatement 0 cs = some (stmt, rest)) : hoistConstantsFrom 0 b cs =
      ((hoistConstantsFrom 0 stmt.getLast? rest).1,
        stmt :: (hoistConstantsFrom 0 stmt.getLast? rest).2) := by
  obtain ⟨htext, hne⟩ := Text.splitStatement_eq hs
  have hlen := length_lt_of_span htext hne
  cases cs with
  | nil => cases hs
  | cons c r =>
    obtain ⟨ho, hc⟩ := not_bracket_of_atConst ha
    rw [hoistConstantsFrom]
    simp only [ho, hc, ha, hs, if_pos hlen, Bool.false_eq_true, if_false, beq_self_eq_true,
      Bool.and_self, if_true]

/-- A constant at a place. -/
def FindsConstant (u span _rest : List Char) (_ : Unit) : Prop := IsConstant u span

theorem IsConstant.depth_eq (h : IsConstant u stmt) : depth (u ++ stmt) = 0 := by
  obtain ⟨x, rfl, hx, -⟩ := h.ends
  rw [Int.zero_add] at hx
  rw [depth_append, depth_append, h.level, hx]
  rfl

theorem divides_hoistConstantsFrom (u cs : List Char) :
    ∃ ps, Divides FindsConstant (NothingAt FindsConstant) u cs ps ∧
      hoistConstantsFrom (depth u) u.getLast? cs = (remaining ps, (takenOut ps).map Prod.fst) := by
  induction hl : cs.length using Nat.strongRecOn generalizing u cs with
  | _ l ih =>
    cases cs with
    | nil =>
      rw [hoistConstantsFrom]
      exact ⟨[], .nil, rfl⟩
    | cons c r =>
      by_cases hfind : ∃ stmt rest, c :: r = stmt ++ rest ∧ IsConstant u stmt
      · obtain ⟨stmt, rest, htext, hconst⟩ := hfind
        obtain ⟨hu, hat, hs⟩ := takesConstant_iff.2 ⟨htext, hconst⟩
        have hne := (Text.splitStatement_eq hs).2
        have hlen : rest.length < l := hl ▸ length_lt_of_span htext hne
        obtain ⟨ps, hps, hrest⟩ := ih rest.length hlen (u ++ stmt) rest rfl
        rw [hconst.depth_eq, List.getLast?_append_of_ne_nil u hne] at hrest
        refine ⟨.found stmt () :: ps, ?_, ?_⟩
        · rw [htext]
          exact .found hconst hps
        · rw [hu, hoistConstantsFrom_take hat hs, hrest]
          rfl
      · have hno : NothingAt FindsConstant u (c :: r) := fun span rest _ htext hspan =>
          hfind ⟨span, rest, htext, hspan⟩
        obtain ⟨ps, hps, hrest⟩ := ih r.length (by simp [← hl]) (u ++ [c]) r rfl
        rw [depth_append, List.getLast?_concat] at hrest
        refine ⟨.char c :: ps, .char hno hps, ?_⟩
        rw [hoistConstantsFrom_keep fun hu hat => ?_, hrest]
        · rfl
        · cases hs : splitStatement 0 (c :: r) with
          | none => rfl
          | some p => exact absurd ⟨p.1, p.2, takesConstant_iff.1 ⟨hu, hat, hs⟩⟩ hfind

/-- Without the end of a statement nothing is hoisted. -/
theorem hoistConstantsFrom_of_none (h : splitStatement l cs = none) :
    hoistConstantsFrom l b cs = (cs, []) := by
  induction cs generalizing l b with
  | nil => rw [hoistConstantsFrom]
  | cons c r ih =>
    have hend : ¬ (c = ';' ∧ l = 0) := by
      rintro ⟨rfl, rfl⟩
      rw [splitStatement_end] at h
      cases h
    rw [hoistConstantsFrom_keep fun hl _ => hl ▸ h]
    rw [splitStatement_cons hend, Option.map_eq_none_iff] at h
    rw [ih h]

/-- The heading of a constant in what is left of a text stood in the text. -/
theorem Cut.atConst (hcut : Cut isIdent (some c) r y) (hb : b.any isIdent = false)
    (h : Body.atConst b' (c :: y) = true) : Body.atConst b (c :: r) = true := by
  obtain ⟨-, z, hz, hblank⟩ := atConst_iff.1 h
  have hword : "const".toList = 'c' :: "onst".toList := by decide
  rw [hword, List.cons_append, List.cons.injEq] at hz
  obtain ⟨rfl, rfl⟩ := hz
  obtain ⟨z', rfl, hz'⟩ := hcut.joined rfl (List.all_eq_true.1 (by decide))
  refine atConst_iff.2 ⟨hb, z', by rw [hword]; rfl, ?_⟩
  rwa [hz'.head? rfl]

/-- What is left after hoisting constants has none to hoist. After a constant, `b` is its last
character and `b'` the one that is left before it. -/
theorem hoistConstantsFrom_again
    (hb : b' = b ∨ b.any isIdent = false ∧ b'.any isIdent = false) :
    hoistConstantsFrom l b' (hoistConstantsFrom l b cs).1 =
      ((hoistConstantsFrom l b cs).1, []) := by
  induction hn : cs.length using Nat.strongRecOn generalizing l b b' cs with
  | _ n ih =>
    cases cs with
    | nil => simp [hoistConstantsFrom]
    | cons c r =>
      by_cases htake : l = 0 ∧ atConst b (c :: r) = true ∧ splitStatement 0 (c :: r) ≠ none
      · obtain ⟨rfl, hat, hs⟩ := htake
        obtain ⟨⟨stmt, rest⟩, hs⟩ := Option.ne_none_iff_exists'.1 hs
        obtain ⟨htext, hne⟩ := Text.splitStatement_eq hs
        obtain ⟨x, rfl, -⟩ := splitStatement_iff.1 hs
        have hb' : b'.any isIdent = false := by
          rcases hb with rfl | hb
          · exact (atConst_iff.1 hat).1
          · exact hb.2
        rw [hoistConstantsFrom_take hat hs]
        refine ih rest.length (hn ▸ length_lt_of_span htext hne) (.inr ⟨?_, hb'⟩) rfl
        rw [List.getLast?_concat]
        rfl
      · have hkeep : l = 0 → atConst b (c :: r) = true → splitStatement 0 (c :: r) = none :=
          fun hl hat => by_contra fun hs => htake ⟨hl, hat, hs⟩
        have hcut := (cut_hoistConstantsFrom (l + depth [c]) (b := some c) (.inl rfl) r).1
        have hrest := ih r.length (by simp [← hn]) (l := l + depth [c]) (b := some c) (.inl rfl) rfl
        rw [hoistConstantsFrom_keep hkeep]
        rw [hoistConstantsFrom_keep fun hl hat => ?_, hrest]
        -- A heading that is left was one before, so its statement has no end and all is left.
        subst hl
        have hbi : b.any isIdent = false := by
          rcases hb with rfl | hb
          · exact (atConst_iff.1 hat).1
          · exact hb.1
        have hnone := hkeep rfl (hcut.atConst hbi hat)
        have hall := hoistConstantsFrom_of_none (b := b) hnone
        rw [hoistConstantsFrom_keep hkeep, Prod.mk.injEq, List.cons.injEq] at hall
        rw [hall.1.2]
        exact hnone

end Constants

section Main

/-- Hoisting takes spans out of a text and leaves the rest. Shared variables, constants and helpers
are taken out as they are written, and a helper is answered as a function. Constants are hoisted all
at once. Levels are counted without a bound here; below `2 ^ 31` characters the same is true of
counters of 32 bits (`ByOffset.hoistConstants?_divides`). -/
theorem hoisting_divides (d : Dialect) (text : List Char) :
    (∃ ps : List (Piece Unit), ps.flatMap Piece.text = text ∧
      Divides (FindsShared d) (NothingAt (FindsShared d)) [] text ps ∧
      hoistShared d text = (remaining ps, (takenOut ps).map Prod.fst)) ∧
    (∃ ps : List (Piece Helper), ps.flatMap Piece.text = text ∧
      Divides FindsHelper LeftByHelpers [] text ps ∧
      hoistHelpers d text = (remaining ps, (takenOut ps).map fun p => p.2.text d)) ∧
    (∃ ps : List (Piece Unit), ps.flatMap Piece.text = text ∧
      Divides FindsConstant (NothingAt FindsConstant) [] text ps ∧
      hoistConstants text = (remaining ps, (takenOut ps).map Prod.fst)) ∧
    hoistConstants (hoistConstants text).1 = ((hoistConstants text).1, []) := by
  obtain ⟨shared, hshared, hs⟩ := divides_hoistShared d text
  obtain ⟨helpers, hhelpers, hh⟩ := divides_takeHelpers (b := none) [] rfl text
  obtain ⟨constants, hconstants, hc⟩ := divides_hoistConstantsFrom [] text
  refine ⟨⟨shared, hshared.text, hshared, hs⟩, ⟨helpers, hhelpers.text, hhelpers, ?_⟩,
    ⟨constants, hconstants.text, hconstants, hc⟩, hoistConstantsFrom_again (.inl rfl)⟩
  rw [hoistHelpers, hoistHelpersFrom_eq, hh, List.map_map]
  rfl

end Main

end ComputeKernel.Body
