import Mathlib.Data.List.DropRight
import ComputeKernel.Proofs.Emission
import ComputeKernel.Proofs.Partition

/-!
# Discovered uniforms

The accesses to uniforms divide a text: each is found where it is written (`ReadsUniform`), and no
access is missed. So the accesses of a text are described without the reader that finds them
(`accesses_iff`). The slots keep, access by access, the names in the order in which they first
appear and for each name the last scalar that an access to it showed (`Discovers.addAccess`).

No access goes across the end of a statement. Where a text is continued after such an end, its
accesses stay what they are and those of the continuation follow (`uniformAccesses_append`), so that
the slots found already keep their places (`place_discoverUniforms`).
-/

namespace ComputeKernel.Body

open Text

section Reading

/-- An access as it is written, with the text after it: the marker and a name, and a dot and a
second name if they follow. Both names go as far as they can. -/
inductive ReadsUniform : (span rest : List Char) → List Char × Bool → Prop
  | whole {name rest : List Char} (hn : isIdentifier name = true)
    (hr : rest.head?.any isIdent = false)
    (hno : ∀ r, rest = '.' :: r → r.head?.any isIdentStart = false) :
    ReadsUniform (uniformMarker ++ name) rest (name, false)
  | member {name field rest : List Char} (hn : isIdentifier name = true)
    (hf : isIdentifier field = true) (hr : rest.head?.any isIdent = false) :
    ReadsUniform (uniformMarker ++ (name ++ '.' :: field)) rest (name, true)

variable {b : Option Char} {cs r rest span : List Char} {a : List Char × Bool} {c : Char}

theorem identifier?_eq_none_iff : identifier? r = none ↔ r.head?.any isIdentStart = false := by
  cases r with
  | nil => exact ⟨fun _ => rfl, fun _ => rfl⟩
  | cons c r =>
    rw [identifier?]
    cases h : isIdentStart c <;> simp [h]

/-- An access is read where one is written, and as it is written. -/
theorem uniformAccess?_iff : uniformAccess? b cs = some (a, rest) ↔
    ∃ span, cs = span ++ rest ∧ ReadsUniform span rest a := by
  unfold uniformAccess?
  constructor
  · intro h
    split at h
    · cases h
    rename_i r hmarker
    cases after?_eq_some hmarker
    split at h
    · cases h
    rename_i name y hname
    obtain ⟨hn, hy, rfl⟩ := identifier?_iff.1 hname
    split at h
    · split at h
      · rename_i field rest' hfield
        cases h
        obtain ⟨hf, hr, rfl⟩ := identifier?_iff.1 hfield
        exact ⟨_, by simp, .member hn hf hr⟩
      · rename_i hfield
        cases h
        refine ⟨_, (List.append_assoc ..).symm, .whole hn hy fun r hr => ?_⟩
        cases hr
        exact identifier?_eq_none_iff.1 hfield
    · rename_i hdot
      cases h
      exact ⟨_, (List.append_assoc ..).symm, .whole hn hy fun r hr => absurd hr (hdot r)⟩
  · rintro ⟨span, rfl, h⟩
    cases h with
    | @whole name _ hn hr hno =>
      have hname : identifier? (name ++ rest) = some (name, rest) := identifier?_iff.2 ⟨hn, hr, rfl⟩
      rw [List.append_assoc, after?_self]
      simp only [hname]
      split
      · rw [identifier?_eq_none_iff.2 (hno _ rfl)]
      · rfl
    | @member name field _ hn hf hr =>
      have hname : identifier? (name ++ '.' :: (field ++ rest)) =
          some (name, '.' :: (field ++ rest)) :=
        identifier?_iff.2 ⟨hn, rfl, rfl⟩
      have hfield : identifier? (field ++ rest) = some (field, rest) :=
        identifier?_iff.2 ⟨hf, hr, rfl⟩
      rw [List.append_assoc, after?_self, List.append_assoc, List.cons_append]
      simp only [hname, hfield]

theorem ReadsUniform.ne_nil (h : ReadsUniform span rest a) : span ≠ [] := by
  have hm : uniformMarker ≠ [] := by decide
  cases h <;> exact List.append_ne_nil_of_left_ne_nil hm _

/-- At most one access starts at a place. -/
theorem ReadsUniform.unique {span' rest' : List Char} {a' : List Char × Bool}
    (hx : span ++ rest = span' ++ rest') (h : ReadsUniform span rest a)
    (h' : ReadsUniform span' rest' a') : span = span' ∧ a = a' := by
  have hfirst : uniformAccess? none (span ++ rest) = some (a, rest) :=
    uniformAccess?_iff.2 ⟨span, rfl, h⟩
  have hsecond : uniformAccess? none (span ++ rest) = some (a', rest') :=
    uniformAccess?_iff.2 ⟨span', hx, h'⟩
  cases hfirst.symm.trans hsecond
  exact ⟨List.append_cancel_right hx, rfl⟩

theorem endsStatement_of_isIdent (h : isIdent c = true) : endsStatement c = false := by
  rw [Bool.eq_false_iff]
  intro he
  simp only [endsStatement, Bool.or_eq_true, beq_iff_eq] at he
  rcases he with (rfl | rfl) | rfl <;> exact absurd h (by decide)

/-- No statement ends within an access. -/
theorem ReadsUniform.noEnd (h : ReadsUniform span rest a) :
    ∀ c ∈ span, endsStatement c = false := by
  have hm : ∀ c ∈ uniformMarker, endsStatement c = false := by
    have hall : uniformMarker.all (!endsStatement ·) = true := by decide
    simpa using hall
  have hident {n : List Char} (hn : isIdentifier n = true) : ∀ c ∈ n, endsStatement c = false :=
    fun c hc => endsStatement_of_isIdent (ident_of_mem hn hc)
  have hdot : endsStatement '.' = false := by decide
  cases h with
  | whole hn => exact List.forall_mem_append.2 ⟨hm, hident hn⟩
  | member hn hf =>
    exact List.forall_mem_append.2
      ⟨hm, List.forall_mem_append.2 ⟨hident hn, List.forall_mem_cons.2 ⟨hdot, hident hf⟩⟩⟩

end Reading

section Seam

variable {r s span t u v x : List Char} {a : List Char × Bool}
  {ps qs : List (Piece (List Char × Bool))}

/-- A text whose last statement has ended. -/
def EndsStatement (x : List Char) : Prop := x.getLast?.any endsStatement = true

theorem EndsStatement.ne_nil (h : EndsStatement x) : x ≠ [] := by
  rintro rfl
  cases h

theorem EndsStatement.mem (h : EndsStatement x) : ∃ c ∈ x, endsStatement c = true := by
  unfold EndsStatement at h
  cases hl : x.getLast? with
  | none =>
    rw [hl] at h
    cases h
  | some c =>
    rw [hl] at h
    exact ⟨c, List.mem_of_getLast? hl, h⟩

theorem EndsStatement.head?_append (h : EndsStatement x) : (x ++ t).head? = x.head? := by
  obtain ⟨c, x, rfl⟩ := List.exists_cons_of_ne_nil h.ne_nil
  rfl

/-- The end of a statement lies behind a text that has none. -/
theorem EndsStatement.of_append (hu : ∀ c ∈ u, endsStatement c = false)
    (h : EndsStatement (u ++ x)) : EndsStatement x := by
  cases x with
  | nil =>
    rw [List.append_nil] at h
    obtain ⟨c, hc, he⟩ := h.mem
    rw [hu c hc] at he
    cases he
  | cons c x =>
    unfold EndsStatement at h ⊢
    rwa [List.getLast?_append_of_ne_nil u (List.cons_ne_nil c x)] at h

theorem EndsStatement.of_dot (h : EndsStatement ('.' :: x)) : EndsStatement x :=
  EndsStatement.of_append (u := ['.']) (List.forall_mem_singleton.2 (by decide)) h

/-- What comes after the end of a statement has no part in an access before it. -/
theorem readsUniform_append_iff (hr : EndsStatement r) :
    ReadsUniform span (r ++ t) a ↔ ReadsUniform span r a := by
  constructor
  · intro h
    generalize hx : r ++ t = x at h
    cases h with
    | whole hn hi hno =>
      rw [← hx, hr.head?_append] at hi
      refine .whole hn hi fun y hy => ?_
      subst hy
      rw [← hr.of_dot.head?_append]
      exact hno (y ++ t) hx.symm
    | member hn hf hi =>
      rw [← hx, hr.head?_append] at hi
      exact .member hn hf hi
  · intro h
    cases h with
    | whole hn hi hno =>
      rw [← hr.head?_append] at hi
      refine .whole hn hi fun z hz => ?_
      -- The dot is not the end of a statement, so what follows it is in `r` too.
      obtain ⟨c, y, rfl⟩ := List.exists_cons_of_ne_nil hr.ne_nil
      rw [List.cons_append] at hz
      obtain ⟨rfl, rfl⟩ := List.cons.inj hz
      rw [hr.of_dot.head?_append]
      exact hno y rfl
    | member hn hf hi =>
      rw [← hr.head?_append] at hi
      exact .member hn hf hi

/-- A text that stands after `u`, divided by its accesses. -/
abbrev AccessDivision (u x : List Char) (ps : List (Piece (List Char × Bool))) : Prop :=
  Divides (fun _ => ReadsUniform) (NothingAt fun _ => ReadsUniform) u x ps

theorem accessDivision_cut (u x : List Char) :
    AccessDivision u x (cut uniformAccess? u.getLast? x) :=
  divides_cut (fun _ => ReadsUniform) (fun _ _ _ _ => uniformAccess?_iff)
    (fun _ _ _ _ h => h.ne_nil) u x

theorem AccessDivision.unique (hp : AccessDivision u x ps) (hq : AccessDivision u x qs) : ps = qs :=
  Divides.unique (fun _ _ _ _ _ _ _ hx h h' => h.unique hx h') (fun _ _ _ _ h => h.ne_nil) hp hq

theorem AccessDivision.move (h : AccessDivision u x ps) : AccessDivision v x ps := by
  induction h generalizing v with
  | nil => exact .nil
  | char hk _ ih => exact .char hk ih
  | found hf _ ih => exact .found hf ih

theorem nothingAt_append (hx : EndsStatement x) (h : NothingAt (fun _ => ReadsUniform) u x) :
    NothingAt (fun _ => ReadsUniform) u (x ++ t) := by
  intro span rest a hs hf
  rcases List.append_eq_append_iff.1 hs with ⟨y, rfl, -⟩ | ⟨y, rfl, rfl⟩
  · obtain ⟨c, hc, he⟩ := hx.mem
    rw [hf.noEnd c (List.mem_append_left y hc)] at he
    cases he
  · exact h span y a rfl ((readsUniform_append_iff (hx.of_append hf.noEnd)).1 hf)

/-- A text that ends with a statement is divided apart from what follows. -/
theorem AccessDivision.append (hp : AccessDivision u s ps) (hs : s = [] ∨ EndsStatement s)
    (hq : AccessDivision v t qs) : AccessDivision u (s ++ t) (ps ++ qs) := by
  have hends : ∀ {w y}, s = w ++ y → y ≠ [] → EndsStatement y := by
    rintro w y rfl hy
    have h := hs.resolve_left (List.append_ne_nil_of_right_ne_nil w hy)
    unfold EndsStatement at h ⊢
    rwa [List.getLast?_append_of_ne_nil w hy] at h
  refine Divides.append hp (fun w y hw hy hk => nothingAt_append (hends hw hy) hk)
    (fun w span y a hw hf => ?_) hq.move
  have hspan := hends hw (List.append_ne_nil_of_left_ne_nil hf.ne_nil y)
  exact (readsUniform_append_iff (hspan.of_append hf.noEnd)).2 hf

end Seam

section Accesses

variable {accesses : List UniformAccess} {ps qs : List (Piece (List Char × Bool))}
  {s span t text u x : List Char} {c : Char}

/-- The text after the last end of a statement in `u`. -/
def openStatement (u : List Char) : List Char := u.rtakeWhile (!endsStatement ·)

theorem openStatement_concat :
    openStatement (u ++ [c]) = if endsStatement c then [] else openStatement u ++ [c] := by
  rw [openStatement, List.rtakeWhile_concat]
  cases endsStatement c <;> rfl

theorem openStatement_append (h : ∀ c ∈ span, endsStatement c = false) :
    openStatement (u ++ span) = openStatement u ++ span := by
  induction span using List.reverseRecOn with
  | nil => simp
  | append_singleton span c ih =>
    rw [← List.append_assoc, openStatement_concat, h c (by simp)]
    rw [ih fun d hd => h d (List.mem_append_left [c] hd)]
    simp

theorem openStatement_of_ends (h : EndsStatement u) : openStatement u = [] := by
  induction u using List.reverseRecOn with
  | nil => rfl
  | append_singleton u c _ =>
    have hc : endsStatement c = true := by simpa [EndsStatement] using h
    rw [openStatement_concat, if_pos hc]

/-- The accesses among the pieces of a text that stands after `u`. -/
def accessesAfter : List Char → List (Piece (List Char × Bool)) → List UniformAccess
  | _, [] => []
  | u, .char c :: ps => accessesAfter (u ++ [c]) ps
  | u, .found span (name, hasMember) :: ps =>
    ⟨name, hasMember, openStatement u⟩ :: accessesAfter (u ++ span) ps

/-- The accesses of a text, each with the text from the end of the last statement before it on. -/
def Accesses (text : List Char) (accesses : List UniformAccess) : Prop :=
  ∃ ps, AccessDivision [] text ps ∧ accesses = accessesAfter [] ps

theorem accessesFrom_openStatement (h : AccessDivision u x ps) :
    accessesFrom (openStatement u) ps = accessesAfter u ps := by
  induction h with
  | nil => rfl
  | char _ _ ih =>
    rw [accessesFrom, accessesAfter, ← ih, openStatement_concat]
  | found hf _ ih =>
    rw [accessesFrom, accessesAfter, ← ih, openStatement_append hf.noEnd]

theorem accesses_iff : Accesses text accesses ↔ accesses = uniformAccesses text := by
  have hcut : AccessDivision [] text (cut uniformAccess? none text) := accessDivision_cut [] text
  have heq : uniformAccesses text = accessesAfter [] (cut uniformAccess? none text) :=
    accessesFrom_openStatement hcut
  constructor
  · rintro ⟨ps, hp, rfl⟩
    rw [heq, hp.unique hcut]
  · rintro rfl
    exact ⟨_, hcut, heq⟩

theorem accessesAfter_append :
    accessesAfter u (ps ++ qs) =
      accessesAfter u ps ++ accessesAfter (u ++ ps.flatMap Piece.text) qs := by
  induction ps generalizing u with
  | nil => simp [accessesAfter]
  | cons p ps ih =>
    rcases p with c | ⟨span, name, hasMember⟩ <;>
      simp [accessesAfter, ih, Piece.text]

/-- After the end of a statement the accesses are found as in a text of their own. -/
theorem uniformAccesses_append (hs : EndsStatement s) :
    uniformAccesses (s ++ t) = uniformAccesses s ++ uniformAccesses t := by
  obtain ⟨ps, hp, hfirst⟩ := accesses_iff.2 (rfl : uniformAccesses s = _)
  obtain ⟨qs, hq, hlater⟩ := accesses_iff.2 (rfl : uniformAccesses t = _)
  have hafter : accessesAfter s qs = accessesAfter [] qs := by
    rw [← accessesFrom_openStatement (hq.move (v := s)), ← accessesFrom_openStatement hq,
      openStatement_of_ends hs]
    rfl
  refine (accesses_iff.1 ⟨ps ++ qs, hp.append (.inr hs) hq, ?_⟩).symm
  rw [accessesAfter_append, hp.text, List.nil_append, hafter, hfirst, hlater]

end Accesses

section Slots

variable {a : UniformAccess} {accesses later : List UniformAccess} {kind : Scalar}
  {name s t : List Char} {slots : List UniformSlot}

theorem scalar?_eq_some_iff : a.scalar? = some kind ↔
    a.hasMember = true ∧ ∃ type, statementType? a.statement = some type ∧
      vectorScalar? type = some kind := by
  rw [UniformAccess.scalar?]
  split
  · rename_i hm
    simp [hm, Option.bind_eq_some_iff]
  · rename_i hm
    simp [hm]

/-- The accesses to one uniform. -/
def accessesTo (name : List Char) (accesses : List UniformAccess) : List UniformAccess :=
  accesses.filter (·.name == name)

/-- The scalar of a uniform with these accesses: the last that one of them shows, else `u32`. -/
def lastShown (accesses : List UniformAccess) : Scalar :=
  (accesses.filterMap (·.scalar?)).getLast?.getD .u32

/-- Slots with the names of the accesses in the order in which they first appear, each with the
scalar that the accesses to it show. -/
structure Discovers (accesses : List UniformAccess) (slots : List UniformSlot) : Prop where
  names : slots.map (·.name.toList) = (accesses.map (·.name)).eraseDups
  kinds : ∀ s ∈ slots, s.kind = lastShown (accessesTo s.name.toList accesses)

theorem lastShown_concat : lastShown (accessesTo name (accesses ++ [a])) =
    if a.name = name then a.scalar?.getD (lastShown (accessesTo name accesses))
    else lastShown (accessesTo name accesses) := by
  rw [accessesTo, List.filter_append, ← accessesTo, lastShown, List.filterMap_append]
  split
  · rename_i h
    cases hk : a.scalar? with
    | none => simp [h, hk, lastShown]
    | some kind => simp [h, hk]
  · rename_i h
    simp [h, lastShown]

theorem lastShown_of_notMem (h : name ∉ accesses.map (·.name)) :
    lastShown (accessesTo name accesses) = .u32 := by
  have hnil : accessesTo name accesses = [] := by
    rw [accessesTo, List.filter_eq_nil_iff]
    intro a ha hn
    exact h (List.mem_map.2 ⟨a, ha, beq_iff_eq.1 hn⟩)
  rw [hnil]
  rfl

theorem eraseDups_concat {names : List (List Char)} : (names ++ [name]).eraseDups =
    if name ∈ names then names.eraseDups else names.eraseDups ++ [name] := by
  rw [List.eraseDups_append]
  split
  · rename_i h
    simp [List.removeAll, h]
  · rename_i h
    simp [List.removeAll, h, List.eraseDups_cons]

theorem Discovers.any_name (h : Discovers accesses slots) :
    slots.any (·.name == String.ofList name) = true ↔ name ∈ accesses.map (·.name) := by
  rw [← List.mem_eraseDups, ← h.names, List.any_eq_true, List.mem_map]
  refine exists_congr fun s => and_congr_right fun _ => ?_
  rw [beq_iff_eq, ← String.toList_inj, String.toList_ofList]

/-- A slot after an access, which may show its scalar. -/
def retyped (a : UniformAccess) (s : UniformSlot) : UniformSlot :=
  { s with kind := if a.name = s.name.toList then a.scalar?.getD s.kind else s.kind }

theorem addAccess_seen (h : slots.any (·.name == String.ofList a.name) = true) :
    addAccess slots a = slots.map (retyped a) := by
  have hname : ∀ s : UniformSlot, s.name == String.ofList a.name ↔ a.name = s.name.toList := by
    intro s
    rw [beq_iff_eq, ← String.toList_inj, String.toList_ofList, eq_comm]
  unfold addAccess
  simp only [h, if_true]
  split
  · rename_i kind hk
    refine List.map_congr_left fun s _ => ?_
    simp only [retyped, hk, Option.getD_some, hname]
    split <;> rfl
  · rename_i hk
    refine (List.map_id' slots).symm.trans (List.map_congr_left fun s _ => ?_)
    simp [retyped, hk]

/-- The first access to a uniform makes it, with the next number. -/
theorem addAccess_new (h : ¬ slots.any (·.name == String.ofList a.name) = true) :
    addAccess slots a = slots ++ [⟨String.ofList a.name, a.scalar?.getD .u32, slots.length⟩] :=
  if_neg h

/-- An access to a uniform that is known may show another scalar for it, and any other access adds a
uniform. -/
theorem Discovers.addAccess (h : Discovers accesses slots) :
    Discovers (accesses ++ [a]) (addAccess slots a) := by
  by_cases hseen : slots.any (·.name == String.ofList a.name) = true
  · rw [addAccess_seen hseen]
    rw [h.any_name] at hseen
    constructor
    · rw [List.map_map, List.map_append, List.map_singleton, eraseDups_concat, if_pos hseen]
      exact h.names
    · intro s' hs'
      obtain ⟨s, hs, rfl⟩ := List.mem_map.1 hs'
      rw [retyped, lastShown_concat, ← h.kinds s hs]
  · rw [addAccess_new hseen]
    rw [h.any_name] at hseen
    constructor
    · rw [List.map_append, h.names, List.map_append, List.map_singleton, List.map_singleton,
        eraseDups_concat, if_neg hseen, String.toList_ofList]
    · intro s hs
      rcases List.mem_append.1 hs with hs | hs
      · have hother : a.name ≠ s.name.toList := by
          intro heq
          refine hseen ?_
          rw [← List.mem_eraseDups, ← h.names, heq]
          exact List.mem_map_of_mem hs
        rw [lastShown_concat, if_neg hother]
        exact h.kinds s hs
      · rw [List.mem_singleton] at hs
        subst hs
        rw [String.toList_ofList, lastShown_concat, if_pos rfl, lastShown_of_notMem hseen]

theorem Discovers.foldl (h : Discovers accesses slots) :
    Discovers (accesses ++ later) (later.foldl Body.addAccess slots) := by
  induction later generalizing accesses slots with
  | nil => rwa [List.append_nil]
  | cons a later ih =>
    have := ih (h.addAccess (a := a))
    rwa [List.append_assoc] at this

theorem discovers_discoverUniforms (text : List Char) :
    Discovers (uniformAccesses text) (discoverUniforms text) := by
  have hnil : Discovers [] [] := ⟨rfl, nofun⟩
  exact hnil.foldl

/-- What a slot is bound by. -/
def place (s : UniformSlot) : String × Nat := (s.name, s.index)

theorem place_addAccess : slots.map place <+: (addAccess slots a).map place := by
  by_cases hseen : slots.any (·.name == String.ofList a.name) = true
  · rw [addAccess_seen hseen, List.map_map]
    exact List.prefix_rfl
  · rw [addAccess_new hseen, List.map_append]
    exact List.prefix_append ..

theorem place_foldl : slots.map place <+: (later.foldl addAccess slots).map place := by
  induction later generalizing slots with
  | nil => exact List.prefix_rfl
  | cons a later ih => exact place_addAccess.trans ih

theorem discoverUniforms_append (hs : EndsStatement s) :
    discoverUniforms (s ++ t) = (uniformAccesses t).foldl addAccess (discoverUniforms s) := by
  rw [discoverUniforms, uniformAccesses_append hs, List.foldl_append]
  rfl

/-- Later statements do not move a uniform. -/
theorem place_discoverUniforms (hs : EndsStatement s) :
    (discoverUniforms s).map place <+: (discoverUniforms (s ++ t)).map place := by
  rw [discoverUniforms_append hs]
  exact place_foldl

theorem exists_shown_of_ne (h : lastShown (accesses ++ later) ≠ lastShown accesses) :
    ∃ a ∈ later, a.scalar? = some (lastShown (accesses ++ later)) := by
  unfold lastShown at h ⊢
  rw [List.filterMap_append, List.getLast?_append] at h ⊢
  cases hk : (later.filterMap (·.scalar?)).getLast? with
  | none => exact absurd (by rw [hk]; rfl) h
  | some kind =>
    obtain ⟨a, ha, hs⟩ := List.mem_filterMap.1 (List.mem_of_getLast? hk)
    exact ⟨a, ha, hs⟩

/-- A uniform has another scalar only if a later access shows that one. -/
theorem exists_retyping {i : Nat} {slot slot' : UniformSlot} (hs : EndsStatement s)
    (h : (discoverUniforms s)[i]? = some slot) (h' : (discoverUniforms (s ++ t))[i]? = some slot')
    (hk : slot'.kind ≠ slot.kind) :
    ∃ a ∈ uniformAccesses t, a.name = slot.name.toList ∧ a.scalar? = some slot'.kind := by
  have hname : slot'.name = slot.name := by
    obtain ⟨hi, hslot⟩ := List.getElem?_eq_some_iff.1 h
    have hplace := List.prefix_iff_getElem?.1 (place_discoverUniforms hs (t := t)) i
      (by simpa using hi)
    rw [List.getElem?_map, h', List.getElem_map, hslot] at hplace
    exact congrArg Prod.fst (Option.some.inj hplace)
  have hfirst := (discovers_discoverUniforms s).kinds slot (List.mem_of_getElem? h)
  have hboth := (discovers_discoverUniforms (s ++ t)).kinds slot' (List.mem_of_getElem? h')
  rw [hname, uniformAccesses_append hs, accessesTo, List.filter_append] at hboth
  rw [hfirst, hboth] at hk
  obtain ⟨a, ha, hshown⟩ := exists_shown_of_ne hk
  rw [← hboth] at hshown
  obtain ⟨ha, hn⟩ := List.mem_filter.1 ha
  exact ⟨a, ha, beq_iff_eq.1 hn, hshown⟩

/-- Every text has one slot for each name that it reads, numbered in the order in which the names
first appear, with the scalar that the last access to the name shows. A text that is continued after
the end of a statement keeps its slots, and their scalars unless the continuation shows another
one. -/
theorem discoverUniforms_stable (text : List Char) :
    (∀ accesses, Accesses text accesses ↔ accesses = uniformAccesses text) ∧
    Discovers (uniformAccesses text) (discoverUniforms text) ∧
    (discoverUniforms text).map (·.index) = List.range (discoverUniforms text).length ∧
    (∀ s ∈ discoverUniforms text, s.kind ≠ .f64) ∧
    (∀ other, ∀ s ∈ discoverUniforms text, ∀ s' ∈ discoverUniforms other, s'.name = s.name →
      accessesTo s.name.toList (uniformAccesses other) =
        accessesTo s.name.toList (uniformAccesses text) → s'.kind = s.kind) ∧
    (EndsStatement text → ∀ later,
      (discoverUniforms text).map place <+: (discoverUniforms (text ++ later)).map place ∧
      ∀ (i : Nat) (s s' : UniformSlot), (discoverUniforms text)[i]? = some s →
        (discoverUniforms (text ++ later))[i]? = some s' → s'.kind ≠ s.kind →
        ∃ a ∈ uniformAccesses later, a.name = s.name.toList ∧ a.hasMember = true ∧
          ∃ type, statementType? a.statement = some type ∧ vectorScalar? type = some s'.kind) := by
  have hnumbered := discoverUniforms_numbered text
  refine ⟨fun _ => accesses_iff, discovers_discoverUniforms text, hnumbered.index, hnumbered.kinds,
    fun other s hs s' hs' hname hsame => ?_,
    fun hends later => ⟨place_discoverUniforms hends, fun i s s' h h' hk => ?_⟩⟩
  · rw [(discovers_discoverUniforms other).kinds s' hs',
      (discovers_discoverUniforms text).kinds s hs, hname, hsame]
  · obtain ⟨a, ha, hn, hshown⟩ := exists_retyping hends h h' hk
    exact ⟨a, ha, hn, scalar?_eq_some_iff.1 hshown⟩

/-- A second access shows another scalar for a uniform and leaves its place. -/
theorem discoverUniforms_stable_retyped :
    EndsStatement "var p: vec4<i32> = this.uniform.n.x;".toList ∧
    discoverUniforms "var p: vec4<i32> = this.uniform.n.x;".toList = [⟨"n", .i32, 0⟩] ∧
    discoverUniforms ("var p: vec4<i32> = this.uniform.n.x;".toList ++
      "float q = this.uniform.m + this.uniform.n.y;".toList) = [⟨"n", .f32, 0⟩, ⟨"m", .u32, 1⟩] ∧
    ∃ a ∈ uniformAccesses "float q = this.uniform.m + this.uniform.n.y;".toList,
      a.name = "n".toList ∧ a.hasMember = true ∧
      ∃ type, statementType? a.statement = some type ∧ vectorScalar? type = some .f32 := by
  have hends : EndsStatement "var p: vec4<i32> = this.uniform.n.x;".toList := by
    unfold EndsStatement
    decide
  have hfirst : discoverUniforms "var p: vec4<i32> = this.uniform.n.x;".toList =
      [⟨"n", .i32, 0⟩] := by
    decide +kernel
  have hboth : discoverUniforms ("var p: vec4<i32> = this.uniform.n.x;".toList ++
      "float q = this.uniform.m + this.uniform.n.y;".toList) =
      [⟨"n", .f32, 0⟩, ⟨"m", .u32, 1⟩] := by
    decide +kernel
  refine ⟨hends, hfirst, hboth, ?_⟩
  exact ((discoverUniforms_stable _).2.2.2.2.2 hends _).2 0 ⟨"n", .i32, 0⟩ ⟨"n", .f32, 0⟩
    (by rw [hfirst]; rfl) (by rw [hboth]; rfl) (by decide)

end Slots

end ComputeKernel.Body
