import ComputeKernel.Proofs.Storing
import ComputeKernel.Body.Declaration

/-!
# What is cut out of a body

Declarations, shared variables, helpers and constants are cut out of a body from places at which no
word goes on (`Cut`). So no word comes about in what is left of the body: a word that stands there
stood in the body (`Cut.isInfix`, `Cut.mentions`). Helpers are taken out in the same way whatever
the dialect; only their heads are written differently (`hoistHelpersFrom_eq`).
-/

namespace ComputeKernel.Body

open Text

/-- What is left of a text after the character `b` when spans are taken out of it. A span starts
where what is left so far does not end with a character of the kind `p`, and does not end with one
either. -/
inductive Cut (p : Char → Bool) : Option Char → List Char → List Char → Prop
  | nil {b : Option Char} : Cut p b [] []
  | keep {b : Option Char} {c : Char} {x y : List Char} (h : Cut p (some c) x y) :
    Cut p b (c :: x) (c :: y)
  | drop {b : Option Char} {u x y : List Char} (hb : b.any p = false)
    (hu : u.getLast?.any p = false) (h : Cut p b x y) : Cut p b (u ++ x) y

/-- Whether `w` stands at a place as a word of its own. -/
def wordHere (w : List Char) (b : Option Char) (cs : List Char) : Bool :=
  atWordStart b && (after? w cs).any fun r => atWordStart r.head?

/-- Whether a text has `w` in it as a word of its own. -/
def mentions (w x : List Char) : Bool := anywhere (wordHere w) none x

section Words

variable {p p' : Char → Bool} {b b' : Option Char} {c : Char} {u w x y : List Char}

theorem Cut.refl : Cut p b x x := by
  induction x generalizing b with
  | nil => exact .nil
  | cons c x ih => exact .keep ih

theorem Cut.keep_all (h : Cut p (u.getLast?.or b) x y) : Cut p b (u ++ x) (u ++ y) := by
  induction u generalizing b with
  | nil => exact h
  | cons c u ih =>
    refine .keep (ih ?_)
    rw [List.getLast?_cons] at h
    cases hl : u.getLast? <;> rw [hl] at h <;> exact h

theorem Cut.mono (hp : ∀ c, p' c = true → p c = true) (h : Cut p b x y) : Cut p' b x y := by
  have hany : ∀ {o : Option Char}, o.any p = false → o.any p' = false := by
    intro o ho
    cases o with
    | none => rfl
    | some c =>
      cases hc : p' c with
      | false => exact hc
      | true => simp [hp c hc] at ho
  induction h with
  | nil => exact .nil
  | keep _ ih => exact .keep ih
  | drop hb hu _ ih => exact .drop (hany hb) (hany hu) ih

theorem Cut.subset (h : Cut p b x y) : ∀ c ∈ y, c ∈ x := by
  induction h with
  | nil => simp
  | keep _ ih => exact List.forall_mem_cons.2 ⟨List.mem_cons_self, fun c hc =>
      List.mem_cons_of_mem _ (ih c hc)⟩
  | drop _ _ _ ih => exact fun c hc => List.mem_append_right _ (ih c hc)

/-- A word that goes on where it was copied was copied as a whole. -/
theorem Cut.joined (h : Cut p (some c) x (w ++ y)) (hc : p c = true)
    (hw : ∀ c ∈ w, p c = true) :
    ∃ x', x = w ++ x' ∧ Cut p (w.getLast?.or (some c)) x' y := by
  induction w generalizing c x with
  | nil => exact ⟨x, rfl, h⟩
  | cons d w ih =>
    generalize hb : some c = b at h
    generalize hy : d :: w ++ y = z at h
    cases h with
    | nil => cases hy
    | keep h =>
      cases hy
      obtain ⟨x', rfl, hx⟩ := ih h (hw d List.mem_cons_self) fun c hc =>
        hw c (List.mem_cons_of_mem _ hc)
      refine ⟨x', rfl, ?_⟩
      rw [List.getLast?_cons]
      cases hl : w.getLast? <;> rw [hl] at hx <;> exact hx
    | drop hp =>
      rw [← hb, Option.any_some, hc] at hp
      cases hp

/-- A word in what is left of a text stood in the text. -/
theorem Cut.isInfix (h : Cut p b x y) (hw : ∀ c ∈ w, p c = true) (hy : w <:+: y) : w <:+: x := by
  induction h with
  | nil => exact hy
  | @keep b c x y h ih =>
    rcases List.infix_cons_iff.1 hy with hp | hi
    · cases w with
      | nil => exact List.nil_infix
      | cons d w =>
        obtain ⟨rfl, y', rfl⟩ := List.cons_prefix_cons.1 hp
        obtain ⟨x', rfl, -⟩ := h.joined (hw d List.mem_cons_self)
          fun c hc => hw c (List.mem_cons_of_mem _ hc)
        exact ⟨[], x', by simp⟩
    · exact (ih hi).trans (List.suffix_cons c x).isInfix
  | drop _ _ _ ih => exact (ih hy).trans (List.suffix_append _ _).isInfix

theorem Cut.head? (h : Cut p b x y) (hb : b.any p = true) : x.head? = y.head? := by
  cases h with
  | nil => rfl
  | keep => rfl
  | drop hp =>
    rw [hp] at hb
    cases hb

/-- A word of its own in what is left of a text was one in the text. -/
theorem Cut.mentions (h : Cut isWord b x y) (hw : ∀ c ∈ w, isWord c = true) (hne : w ≠ [])
    (hb : b' = b ∨ b'.any isWord = false) (hy : anywhere (wordHere w) b y = true) :
    anywhere (wordHere w) b' x = true := by
  induction h generalizing b' with
  | nil => exact hy
  | @keep b c x y h ih =>
    rw [anywhere, Bool.or_eq_true] at hy ⊢
    refine hy.imp (fun hhere => ?_) (ih (.inl rfl))
    rw [wordHere, Bool.and_eq_true] at hhere ⊢
    obtain ⟨hstart, hafter⟩ := hhere
    refine ⟨?_, ?_⟩
    · rcases hb with rfl | hb
      · exact hstart
      · rw [atWordStart, hb]
        rfl
    · cases w with
      | nil => exact absurd rfl hne
      | cons d w =>
        rcases ha : after? (d :: w) (c :: y) with _ | r <;> rw [ha] at hafter
        · cases hafter
        obtain ⟨rfl, rfl⟩ : c = d ∧ y = w ++ r := by simpa using after?_eq_some ha
        have hw' : ∀ c ∈ w, isWord c = true := fun e he => hw e (List.mem_cons_of_mem _ he)
        obtain ⟨x', rfl, hx⟩ := h.joined (hw c List.mem_cons_self) hw'
        have hlast : (w.getLast?.or (some c)).any isWord = true := by
          cases hl : w.getLast? with
          | none => exact hw c List.mem_cons_self
          | some e => exact hw' e (List.mem_of_getLast? hl)
        rw [← List.cons_append, after?_self, Option.any_some, hx.head? hlast]
        exact hafter
  | @drop b u x y hp hu h ih =>
    refine anywhere_prepend (ih ?_ hy)
    cases hl : u.getLast? with
    | none => exact hb
    | some c =>
      rw [hl] at hu
      exact .inr hu

end Words

section Spans

variable {α : Type} {p : Char → Bool} {find : Recogniser α} {b b' : Option Char} {cs : List Char}
  {replace : α → Option (List Char)}

/-- What `replaceAll` leaves when it takes spans out, if no span starts or ends within a word. -/
theorem cut_replaceAll
    (hfind : ∀ b cs a rest, find b cs = some (a, rest) →
      b.any p = false ∧ ∃ u k, cs = u ++ k :: rest ∧ p k = false)
    (hrep : ∀ a, replace a = none ∨ replace a = some []) (hb : b' = b ∨ b'.any p = false) :
    Cut p b' cs ((cut find b cs).flatMap fun
      | .char c => [c]
      | .found span a => (replace a).getD span) := by
  induction hl : cs.length using Nat.strongRecOn generalizing b b' cs with
  | _ l ih =>
    cases cs with
    | nil =>
      rw [cut]
      exact .nil
    | cons c r =>
      have hkeep : Cut p b' (c :: r) (c :: (cut find (some c) r).flatMap fun
          | .char c => [c]
          | .found span a => (replace a).getD span) :=
        .keep (ih r.length (by simp [← hl]) (.inl rfl) rfl)
      rw [cut]
      split
      · exact hkeep
      · rename_i a rest hf
        split
        · rename_i hlen
          obtain ⟨hnb, u, k, hu, hk⟩ := hfind _ _ _ _ hf
          have hspan : consumed (c :: r) rest = u ++ [k] := by
            rw [hu, ← List.singleton_append, ← List.append_assoc, consumed_append]
          have hdrop : (c :: r).drop ((c :: r).length - rest.length) = rest := by
            rw [hu, List.append_cons, List.length_append, Nat.add_sub_cancel, List.drop_left]
          have hlast : (u ++ [k]).getLast? = some k := by simp
          have htext : c :: r = (u ++ [k]) ++ rest := by simp [hu]
          simp only [hdrop, hspan, List.flatMap_cons, hlast]
          rw [htext]
          rcases hrep a with hr | hr
          · rw [hr, Option.getD_none]
            refine Cut.keep_all ?_
            rw [hlast]
            exact ih rest.length (by rw [← hl]; exact hlen) (.inl rfl) rfl
          · rw [hr, Option.getD_some, List.nil_append]
            have hb0 : b'.any p = false := by
              rcases hb with rfl | hb
              · exact hnb
              · exact hb
            exact .drop hb0 (by simpa [hlast] using hk)
              (ih rest.length (by rw [← hl]; exact hlen) (.inr hb0) rfl)
        · exact hkeep

theorem isInfix_of_mem_spans {span : List Char} (h : span ∈ spans find cs) : span <:+: cs := by
  have htext := flatMap_text_cut find none cs
  rw [List.flatMap_def] at htext
  simp only [spans, List.mem_filterMap] at h
  obtain ⟨piece, hm, hp⟩ := h
  cases piece with
  | char c => cases hp
  | found s a =>
    cases hp
    rw [← htext]
    exact List.infix_of_mem_flatten (List.mem_map.2 ⟨_, hm, rfl⟩)

theorem suffix_of_dropWhile {f : Char → Bool} {r rest : List Char} {k : Char}
    (h : r.dropWhile f = k :: rest) : (k :: rest) <:+ r := h ▸ List.dropWhile_suffix f

theorem suffix_of_after? {u x rest : List Char} (h : after? u x = some rest) : rest <:+ x :=
  ⟨u, (after?_eq_some h).symm⟩

theorem suffix_of_trimStart {x rest : List Char} {k : Char} (h : trimStart x = k :: rest) :
    (k :: rest) <:+ x := suffix_of_dropWhile h

theorem identifier?_eq {x name rest : List Char} (h : identifier? x = some (name, rest)) :
    x = name ++ rest := by
  cases x with
  | nil => cases h
  | cons c r =>
    rw [identifier?] at h
    split at h
    · cases h
      rw [List.cons_append, List.takeWhile_append_dropWhile]
    · cases h

theorem suffix_of_identifier? {x name rest : List Char} (h : identifier? x = some (name, rest)) :
    rest <:+ x := ⟨name, (identifier?_eq h).symm⟩

theorem atWordStart_any (h : (!atWordStart b) ≠ true) : b.any isWord = false := by
  simpa [atWordStart] using h

theorem opening?_wgsl {rest : List Char} (h : sharedVariable?.opening? .wgsl cs = some rest) :
    ∃ u w z, (∃ a, Blank a ∧ u = "var".toList ++ a) ∧ Blank w ∧ Blank z ∧
      cs = u ++ '<' :: (w ++ ("workgroup".toList ++ (z ++ '>' :: rest))) := by
  rw [sharedVariable?.opening?] at h
  split at h
  · rename_i r hr
    split at h
    · rename_i r' hr'
      cases h
      obtain ⟨y, hy, ht⟩ := Option.map_eq_some_iff.1 hr
      obtain ⟨y', hy', ht'⟩ := Option.map_eq_some_iff.1 hr'
      obtain ⟨u, hub, hu, -⟩ := exists_trimStart y
      obtain ⟨w, hw, hr, -⟩ := exists_trimStart r
      obtain ⟨z, hz, hy'', -⟩ := exists_trimStart y'
      refine ⟨"var".toList ++ u, w, z, ⟨u, hub, rfl⟩, hw, hz, ?_⟩
      rw [← ht', ← hy'', ← after?_eq_some hy', ← hr, List.append_assoc, ← ht, ← hu,
        ← after?_eq_some hy]
    · cases h
  · cases h

theorem opening?_glsl {rest : List Char} (h : sharedVariable?.opening? .glsl cs = some rest) :
    cs = "shared".toList ++ rest ∧ rest.head?.any isBlank = true := by
  rw [sharedVariable?.opening?] at h
  split at h
  · rename_i r hr
    split at h
    · rename_i hblank
      cases h
      exact ⟨after?_eq_some hr, hblank⟩
    · cases h
  · cases h

theorem suffix_of_opening? {d : Dialect} {rest : List Char}
    (h : sharedVariable?.opening? d cs = some rest) : rest <:+ cs := by
  cases d with
  | wgsl =>
    obtain ⟨u, w, z, -, -, -, rfl⟩ := opening?_wgsl h
    exact ⟨u ++ '<' :: (w ++ ("workgroup".toList ++ (z ++ ['>']))), by simp⟩
  | glsl => exact ⟨"shared".toList, (opening?_glsl h).1.symm⟩

theorem sharedVariable?_eq {d : Dialect} {rest : List Char} {a : Unit}
    (h : sharedVariable? d b cs = some (a, rest)) :
    b.any isWord = false ∧ ∃ u k, cs = u ++ k :: rest ∧ isWord k = false := by
  unfold sharedVariable? at h
  split at h
  · cases h
  rename_i hb
  split at h
  · cases h
  rename_i r hr
  split at h
  · rename_i rest' hd
    cases h
    obtain ⟨u, hu⟩ := (suffix_of_dropWhile hd).trans (suffix_of_opening? hr)
    exact ⟨atWordStart_any hb, u, ';', hu.symm, by decide⟩
  · cases h

theorem declaration?_eq {rest : List Char} {a : List Char × List Char}
    (h : declaration? b cs = some (a, rest)) :
    b.any isWord = false ∧ ∃ u k, cs = u ++ k :: rest ∧ isWord k = false := by
  unfold declaration? at h
  split at h
  · cases h
  rename_i hb
  split at h
  · cases h
  rename_i r hr
  split at h
  · cases h
  split at h
  · cases h
  rename_i name r' hi
  have hr' : r' <:+ r := (suffix_of_identifier? hi).trans (List.dropWhile_suffix _)
  split at h
  · rename_i r'' ht
    simp only [] at h
    split at h
    · rename_i rest' hd
      split at h
      · cases h
      · cases h
        obtain ⟨u, hu⟩ := (suffix_of_dropWhile hd).trans ((List.suffix_cons _ _).trans
          ((suffix_of_trimStart ht).trans (hr'.trans (suffix_of_after? hr))))
        exact ⟨atWordStart_any hb, u, ';', hu.symm, by decide⟩
    · cases h
  · cases h

theorem cut_hoistShared (d : Dialect) (x : List Char) : Cut isWord none x (hoistShared d x).1 :=
  cut_replaceAll (fun _ _ _ _ => sharedVariable?_eq) (fun _ => .inr rfl) (.inl rfl)

theorem cut_withoutDeclarations (names : List String) (x : List Char) :
    Cut isWord none x (withoutDeclarations names x) := by
  refine cut_replaceAll (fun _ _ _ _ => declaration?_eq) (fun a => ?_) (.inl rfl)
  split
  · exact .inr rfl
  · exact .inl rfl

end Spans

section Helpers

/-- A helper as it stands in a body. -/
structure Helper where
  name : List Char
  args : List Char
  result : Option (List Char)
  block : List Char
  deriving DecidableEq, Repr

/-- The function that a helper stands for. -/
def Helper.text (d : Dialect) (h : Helper) : List Char :=
  d.functionHead h.name h.args h.result ++ ' ' :: h.block

/-- Whether the head of a helper has `w` in it as a word of its own. -/
def Helper.mentions (w : List Char) (h : Helper) : Bool :=
  Body.mentions w h.name || Body.mentions w h.args || h.result.any (Body.mentions w)

/-- The rest of a helper after its opening. -/
def readHelper? (name cs : List Char) : Option (Helper × List Char) :=
  match splitClose 0 cs with
  | none => none
  | some (args, r) =>
    match r.dropWhile (· != '{') with
    | [] => none
    | brace :: block =>
      match splitClose 0 block with
      | none => none
      | some (_, rest) =>
        some (⟨name, trim args, helperResult? (r.takeWhile (· != '{')),
          consumed (brace :: block) rest⟩, rest)

/-- Takes the helpers out of a text as they stand there. -/
def takeHelpers (before : Option Char) (cs : List Char) : List Char × List Helper :=
  match cs with
  | [] => ([], [])
  | c :: r =>
    match helperOpening? before (c :: r) with
    | none =>
      let p := takeHelpers (some c) r
      (c :: p.1, p.2)
    | some (name, inner) =>
      match readHelper? name inner with
      | none => (c :: r, [])
      | some (helper, rest) =>
        if rest.length < (c :: r).length then
          let p := takeHelpers before rest
          (p.1, helper :: p.2)
        else (c :: r, [])
termination_by cs.length
decreasing_by all_goals simp_all

variable {d : Dialect} {b : Option Char} {name cs rest : List Char} {h : Helper}

theorem helper?_eq (d : Dialect) (name cs : List Char) :
    helper? d name cs = (readHelper? name cs).map fun p => (p.1.text d, p.2) := by
  unfold helper? readHelper?
  rcases splitClose 0 cs with _ | ⟨args, r⟩
  · rfl
  rcases hd : r.dropWhile (· != '{') with _ | ⟨brace, block⟩
  · simp only [hd]
    rfl
  simp only [hd]
  rcases splitClose 0 block with _ | ⟨inside, rest⟩
  · rfl
  · simp [Helper.text]

/-- The dialect only decides how the helpers are written. -/
theorem hoistHelpersFrom_eq (d : Dialect) (b : Option Char) (cs : List Char) :
    hoistHelpersFrom d b cs =
      ((takeHelpers b cs).1, (takeHelpers b cs).2.map (Helper.text d)) := by
  induction hl : cs.length using Nat.strongRecOn generalizing b cs with
  | _ l ih =>
    cases cs with
    | nil =>
      rw [hoistHelpersFrom, takeHelpers]
      rfl
    | cons c r =>
      rw [hoistHelpersFrom, takeHelpers]
      rcases helperOpening? b (c :: r) with _ | ⟨name, inner⟩
      · simp only [ih r.length (by simp [← hl]) (some c) r rfl]
      simp only [helper?_eq]
      rcases readHelper? name inner with _ | ⟨h, rest⟩
      · rfl
      simp only [Option.map_some]
      split
      · rename_i hlen
        simp only [ih rest.length (by rw [← hl]; exact hlen) b rest rfl, List.map_cons]
      · rfl

theorem helperOpening?_eq {inner : List Char} (h : helperOpening? b cs = some (name, inner)) :
    b.any isWord = false ∧ name <:+: cs ∧ inner <:+ cs := by
  unfold helperOpening? at h
  split at h
  · cases h
  rename_i hb
  split at h
  · cases h
  rename_i r hr
  split at h
  · cases h
  split at h
  · cases h
  rename_i name' r' hi
  have hsuf : trimStart r <:+ cs := (List.dropWhile_suffix _).trans (suffix_of_after? hr)
  split at h
  · rename_i inner' ht
    cases h
    refine ⟨atWordStart_any hb, ?_, ?_⟩
    · have hin : name <:+: trimStart r := ⟨[], r', by rw [identifier?_eq hi]; rfl⟩
      exact hin.trans hsuf.isInfix
    · exact (List.suffix_cons _ _).trans ((suffix_of_trimStart ht).trans
        ((suffix_of_identifier? hi).trans hsuf))
  · cases h

theorem helperResult?_isInfix {x result : List Char} (h : helperResult? x = some result) :
    result <:+: x := by
  unfold helperResult? at h
  split at h
  · rename_i r hr
    split at h
    · cases h
    · cases h
      exact (isInfix_trim r).trans ((suffix_of_after? hr).isInfix.trans (isInfix_trim x))
  · cases h

/-- The parts of a helper stand in the text. -/
structure Helper.Within (h : Helper) (cs : List Char) : Prop where
  name : h.name <:+: cs
  args : h.args <:+: cs
  result : ∀ r ∈ h.result, r <:+: cs
  block : h.block <:+: cs

theorem Helper.Within.trans {x : List Char} (hw : h.Within cs) (hx : cs <:+: x) : h.Within x :=
  ⟨hw.name.trans hx, hw.args.trans hx, fun r hr => (hw.result r hr).trans hx, hw.block.trans hx⟩

theorem readHelper?_eq (hname : name <:+: cs) {inner : List Char} (hinner : inner <:+ cs)
    (hr : readHelper? name inner = some (h, rest)) :
    h.Within cs ∧ ∃ u k, cs = u ++ k :: rest ∧ isWord k = false := by
  unfold readHelper? at hr
  split at hr
  · cases hr
  rename_i args r hs
  obtain ⟨k, -, rfl⟩ := splitClose_eq hs
  have hargs : args <:+: args ++ k :: r := ⟨[], k :: r, rfl⟩
  have hrs : r <:+ cs := by
    refine List.IsSuffix.trans ?_ hinner
    exact ⟨args ++ [k], by simp⟩
  split at hr
  · cases hr
  rename_i brace block hd
  have hblock : brace :: block <:+ cs := (suffix_of_dropWhile hd).trans hrs
  split at hr
  · cases hr
  rename_i inside rest' hs'
  cases hr
  obtain ⟨k', hk', rfl⟩ := splitClose_eq hs'
  refine ⟨⟨hname, ?_, fun result hres => ?_, ?_⟩, ?_⟩
  · exact (isInfix_trim args).trans (hargs.trans hinner.isInfix)
  · exact (helperResult?_isInfix hres).trans
      ((List.takeWhile_prefix _).isInfix.trans hrs.isInfix)
  · exact (List.take_prefix _ _).isInfix.trans hblock.isInfix
  · obtain ⟨u, hu⟩ := hblock
    refine ⟨u ++ brace :: inside, k', by rw [← hu]; simp, ?_⟩
    exact isWord_of_apart (isApart_of_stop (by simp [isStop, hk']))

/-- Helpers are cut out of a text, and their parts stand in it. -/
theorem cut_takeHelpers (b : Option Char) (cs : List Char) :
    Cut isWord b cs (takeHelpers b cs).1 ∧ ∀ h ∈ (takeHelpers b cs).2, h.Within cs := by
  induction hl : cs.length using Nat.strongRecOn generalizing b cs with
  | _ l ih =>
    cases cs with
    | nil =>
      rw [takeHelpers]
      exact ⟨.nil, by simp⟩
    | cons c r =>
      rw [takeHelpers]
      rcases ho : helperOpening? b (c :: r) with _ | ⟨name, inner⟩
      · obtain ⟨hc, hh⟩ := ih r.length (by simp [← hl]) (some c) r rfl
        exact ⟨.keep hc, fun h hm => (hh h hm).trans (List.suffix_cons c r).isInfix⟩
      obtain ⟨hb, hname, hinner⟩ := helperOpening?_eq ho
      rcases hr : readHelper? name inner with _ | ⟨h, rest⟩
      · simp only [hr]
        exact ⟨.refl, by simp⟩
      simp only [hr]
      split
      · rename_i hlen
        obtain ⟨hw, u, k, hu, hk⟩ := readHelper?_eq hname hinner hr
        obtain ⟨hc, hh⟩ := ih rest.length (by rw [← hl]; exact hlen) b rest rfl
        have htext : c :: r = (u ++ [k]) ++ rest := by simp [hu]
        refine ⟨?_, List.forall_mem_cons.2 ⟨hw, fun h hm => (hh h hm).trans ?_⟩⟩
        · rw [htext]
          exact .drop hb (by simpa using hk) hc
        · rw [htext]
          exact (List.suffix_append _ _).isInfix
      · exact ⟨.refl, by simp⟩

end Helpers

section Heads

variable {P : List Char → Prop} {d : Dialect} {name args : List Char} {result : Option (List Char)}

theorem functionHead_wgsl : Dialect.functionHead .wgsl name args result = "fn".toList ++ ' ' ::
    (name ++ '(' :: (args ++ ')' :: result.elim [] fun r => ' ' :: '-' :: '>' :: ' ' :: r)) := by
  -- The definition is opened by `change`: its own equations take long to build.
  cases result with
  | none =>
    change "fn ".toList ++ name ++ "(".toList ++ args ++ ")".toList ++ [] = _
    simp
  | some r =>
    change "fn ".toList ++ name ++ "(".toList ++ args ++ ")".toList ++ (" -> ".toList ++ r) = _
    simp

theorem functionHead_glsl : Dialect.functionHead .glsl name args result =
    result.getD "void".toList ++ ' ' :: (name ++ '(' :: (args ++ [')'])) := by
  change result.getD "void".toList ++ " ".toList ++ name ++ "(".toList ++ args ++ ")".toList = _
  simp

/-- The marks between the parts of a function. -/
def headMarks : List Char := [' ', '(', ')', '-', '>']

theorem headMark_apart {e : Char} (he : e ∈ headMarks) : isApart e = true ∧ e.toNat < 0x80 := by
  simp only [headMarks, List.mem_cons, List.not_mem_nil, or_false] at he
  rcases he with rfl | rfl | rfl | rfl | rfl <;> decide

/-- What holds of the parts of a head holds of the head, if it goes over the marks between them. -/
theorem functionHead_induct (nil : P [])
    (seam : ∀ x y e, e ∈ headMarks → P x → P y → P (x ++ e :: y))
    (word : P "fn".toList ∧ P "void".toList) (hn : P name) (ha : P args) (hr : ∀ r ∈ result, P r) :
    P (d.functionHead name args result) := by
  -- From the end of a head to its front: what follows the arguments, then they and the name.
  have harguments : ∀ {y}, P y → P (args ++ ')' :: y) := fun hy => seam _ _ ')' (by decide) ha hy
  have hname : ∀ {y}, P y → P (name ++ '(' :: (args ++ ')' :: y)) := fun hy =>
    seam _ _ '(' (by decide) hn (harguments hy)
  cases d with
  | wgsl =>
    have hresult : P (result.elim [] fun r => ' ' :: '-' :: '>' :: ' ' :: r) := by
      cases result with
      | none => exact nil
      | some r =>
        have hblank : P (' ' :: r) := seam [] r ' ' (by decide) nil (hr r rfl)
        have hhead : P ('>' :: ' ' :: r) := seam [] _ '>' (by decide) nil hblank
        have harrow : P ('-' :: '>' :: ' ' :: r) := seam [] _ '-' (by decide) nil hhead
        exact seam [] _ ' ' (by decide) nil harrow
    rw [functionHead_wgsl]
    exact seam _ _ ' ' (by decide) word.1 (hname hresult)
  | glsl =>
    have hresult : P (result.getD "void".toList) := by
      cases result with
      | none => exact word.2
      | some r => exact hr r rfl
    rw [functionHead_glsl]
    exact seam _ _ ' ' (by decide) hresult (hname nil)

theorem infix_seam {w x y : List Char} {e : Char} (hw : ∀ c ∈ w, isIdent c = true) (hne : w ≠ [])
    (he : isIdent e = false) (h : w <:+: x ++ e :: y) : w <:+: x ∨ w <:+: y := by
  have hnot : e ∉ w := fun hm => by
    rw [hw e hm] at he
    cases he
  induction x with
  | nil =>
    rcases List.infix_cons_iff.1 h with hp | hi
    · obtain ⟨d, w, rfl⟩ := List.exists_cons_of_ne_nil hne
      exact absurd ((List.cons_prefix_cons.1 hp).1 ▸ List.mem_cons_self) hnot
    · exact .inr hi
  | cons c x ih =>
    rw [List.cons_append, List.infix_cons_iff] at h
    rcases h with hp | hi
    · rw [← List.cons_append, ← List.isPrefixOf_iff_prefix, isPrefixOf_append
        (by rintro c ⟨⟩; exact hnot), List.isPrefixOf_iff_prefix] at hp
      exact .inl hp.isInfix
    · exact (ih hi).imp_left fun h => h.trans (List.suffix_cons c x).isInfix

end Heads

section Constants

variable {b b' : Option Char} {cs stmt rest : List Char}

theorem splitStatement_eq {level : Int} (h : splitStatement level cs = some (stmt, rest)) :
    ∃ u, cs = u ++ ';' :: rest ∧ stmt = u ++ [';'] := by
  induction cs generalizing level stmt with
  | nil => cases h
  | cons c r ih =>
    have hmore : ∀ {level}, (splitStatement level r).map (fun p => (c :: p.1, p.2)) =
        some (stmt, rest) → ∃ u, c :: r = u ++ ';' :: rest ∧ stmt = u ++ [';'] := by
      intro level h
      obtain ⟨⟨s, t⟩, hs, he⟩ := Option.map_eq_some_iff.1 h
      cases he
      obtain ⟨u, rfl, rfl⟩ := ih hs
      exact ⟨c :: u, rfl, rfl⟩
    rw [splitStatement] at h
    split at h
    · exact hmore h
    split at h
    · exact hmore h
    split at h
    · rename_i hc
      rw [Bool.and_eq_true, beq_iff_eq] at hc
      cases h
      exact ⟨[], by rw [hc.1]; rfl, by rw [hc.1]; rfl⟩
    · exact hmore h

/-- Constants are cut out of a text, and stand in it. -/
theorem cut_hoistConstantsFrom (level : Int) (hb : b' = b ∨ b'.any isIdent = false)
    (cs : List Char) : Cut isIdent b' cs (hoistConstantsFrom level b cs).1 ∧
      ∀ t ∈ (hoistConstantsFrom level b cs).2, t <:+: cs := by
  -- After a constant, `b` is its last character and `b'` the one that is left before it.
  induction hl : cs.length using Nat.strongRecOn generalizing level b b' cs with
  | _ l ih =>
    cases cs with
    | nil =>
      rw [hoistConstantsFrom]
      exact ⟨.nil, by simp⟩
    | cons c r =>
      have hkeep : ∀ level, Cut isIdent b' (c :: r) (c :: (hoistConstantsFrom level (some c) r).1) ∧
          ∀ t ∈ (hoistConstantsFrom level (some c) r).2, t <:+: c :: r := fun level => by
        obtain ⟨hc, ht⟩ := ih r.length (by simp [← hl]) level (.inl (Eq.refl (some c))) r rfl
        exact ⟨.keep hc, fun t hm => (ht t hm).trans (List.suffix_cons c r).isInfix⟩
      rw [hoistConstantsFrom]
      split
      · exact hkeep _
      split
      · exact hkeep _
      split
      · rename_i hconst
        rw [Bool.and_eq_true] at hconst
        have hnb : b.any isIdent = false := by
          have hat := hconst.2
          unfold atConst at hat
          split at hat
          · rw [Bool.and_eq_true, Bool.not_eq_true'] at hat
            exact hat.1
          · cases hat
        have hb0 : b'.any isIdent = false := by
          rcases hb with rfl | hb
          · exact hnb
          · exact hb
        rcases hs : splitStatement 0 (c :: r) with _ | ⟨stmt, rest⟩
        · exact hkeep _
        simp only []
        split
        · rename_i hlen
          obtain ⟨u, hu, rfl⟩ := splitStatement_eq hs
          obtain ⟨hc, ht⟩ := ih rest.length (by rw [← hl]; exact hlen) level
            (b := (u ++ [';']).getLast?) (.inr hb0) rest rfl
          have htext : c :: r = (u ++ [';']) ++ rest := by simp [hu]
          refine ⟨?_, List.forall_mem_cons.2 ⟨⟨[], rest, by simp [hu]⟩, fun t hm =>
            (ht t hm).trans ?_⟩⟩
          · rw [htext]
            exact .drop hb0 (by simp; rfl) hc
          · rw [htext]
            exact (List.suffix_append _ _).isInfix
        · exact ⟨.refl, by simp⟩
      · exact hkeep _

end Constants

end ComputeKernel.Body
