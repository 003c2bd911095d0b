import Mathlib.Data.List.Infix
import ComputeKernel.Proofs.Assembly
import ComputeKernel.Proofs.Inference

/-!
# One layout for both dialects

A kernel body has the same layout whatever the dialect it is assembled for, or fails with the same
fault (`draft_layout_eq`). Only the access of images depends on the phrased text, and what decides
about it are the assignments in the pieces of the body. The pieces of the two dialects differ in the
heads of the helpers alone if the body has no shared variables, and a head in which no parameter is
mentioned has no assignment in it (`assigns_text`, `assigns_scanned`).
-/

namespace ComputeKernel.Body

open Text

section Words

variable {b : Option Char} {c e : Char} {w n x y : List Char}

theorem wordHere_nil (hne : w ≠ []) : wordHere w b [] = false := by
  obtain ⟨c, w, rfl⟩ := List.exists_cons_of_ne_nil hne
  exact Bool.and_false _

theorem anywhere_wordHere (hne : w ≠ []) (h : wordHere w b x = true) :
    anywhere (wordHere w) b x = true := by
  cases x with
  | nil =>
    rw [wordHere_nil hne] at h
    cases h
  | cons c x => rw [anywhere, h, Bool.true_or]

theorem wordHere_seam (hw : ∀ c ∈ w, isWord c = true) (he : isWord e = false) :
    wordHere w b (x ++ e :: y) = wordHere w b x := by
  have hnot : e ∉ w := fun hm => by
    rw [hw e hm] at he
    cases he
  rw [wordHere, wordHere]
  rcases ha : after? w x with _ | r
  · have hs := isSome_after? w x
    rw [ha, ← isPrefixOf_append (z := e :: y) (by rintro c ⟨⟩; exact hnot), ← isSome_after?] at hs
    rw [Option.isNone_iff_eq_none.1 (Option.isSome_eq_false_iff.1 hs.symm)]
  · obtain rfl := after?_eq_some ha
    rw [List.append_assoc, after?_self, Option.any_some, Option.any_some]
    cases r with
    | nil => simp [atWordStart, he]
    | cons c r => rfl

theorem mentions_seam (hw : ∀ c ∈ w, isWord c = true) (hne : w ≠ []) (he : isWord e = false) :
    anywhere (wordHere w) b (x ++ e :: y) = (anywhere (wordHere w) b x || mentions w y) := by
  induction x generalizing b with
  | nil =>
    have hfirst : wordHere w b (e :: y) = false :=
      (wordHere_seam (x := []) hw he).trans (wordHere_nil hne)
    have hnext : anywhere (wordHere w) (some e) y = mentions w y := by
      cases y with
      | nil => rfl
      | cons c y => simp [mentions, anywhere, wordHere, atWordStart, he]
    show (wordHere w b (e :: y) || anywhere (wordHere w) (some e) y) = mentions w y
    rw [hfirst, hnext, Bool.false_or]
  | cons c x ih =>
    rw [List.cons_append, anywhere, ← List.cons_append, wordHere_seam hw he, ih, anywhere,
      Bool.or_assoc]

/-- A word has no other word of its own in it. -/
theorem eq_of_mentions (hx : ∀ c ∈ x, isWord c = true) (h : mentions n x = true) : n = x := by
  have hinside : ∀ c x, isWord c = true → (∀ c ∈ x, isWord c = true) →
      anywhere (wordHere n) (some c) x = false := by
    intro c x hc hx
    induction x generalizing c with
    | nil => rfl
    | cons d x ih =>
      rw [anywhere, ih d (hx d List.mem_cons_self) fun e he => hx e (List.mem_cons_of_mem _ he)]
      simp [wordHere, atWordStart, hc]
  cases x with
  | nil => cases h
  | cons c x =>
    rw [mentions, anywhere, hinside c x (hx c List.mem_cons_self)
      fun e he => hx e (List.mem_cons_of_mem _ he), Bool.or_false, wordHere, Bool.and_eq_true] at h
    rcases ha : after? n (c :: x) with _ | r <;> rw [ha] at h
    · cases h.2
    have hcs := after?_eq_some ha
    cases r with
    | nil => rw [hcs, List.append_nil]
    | cons e r =>
      have he : isWord e = true := hx e (hcs ▸ List.mem_append_right _ List.mem_cons_self)
      simp [atWordStart, he] at h

/-- What is assigned to is mentioned. -/
theorem wordHere_of_assignsHere (hn : isIdentifier n = true) (h : assignsHere n b x = true) :
    wordHere n b x = true := by
  rw [assignsHere, Bool.and_eq_true, usesWith_assigned hn, Option.any_eq_true] at h
  obtain ⟨hb, ⟨is, z⟩, ht, -⟩ := h
  obtain ⟨-, hne, g, hg, rfl⟩ := target?_eq ht
  rw [wordHere, hb, after?_self, Option.any_some, Bool.true_and]
  cases hg with
  | nil => exact absurd rfl hne
  | @cons blanks i k is g hblank hi hk hg =>
    cases blanks with
    | nil => exact (by decide : atWordStart (some '[') = true)
    | cons c blanks =>
      exact atWordStart_of_apart (isApart_of_blank (hblank c List.mem_cons_self))

theorem identifier_word (hn : isIdentifier n = true) : (∀ c ∈ n, isWord c = true) ∧ n ≠ [] := by
  refine ⟨fun c hc => isWord_of_isIdent (ident_of_mem hn hc), ?_⟩
  rintro rfl
  cases hn

/-- Before a mark, nothing is assigned to that is not mentioned there. -/
theorem assigns_seam (hn : isIdentifier n = true) (he : isApart e = true)
    (hx : anywhere (wordHere n) b x = false) :
    anywhere (assignsHere n) b (x ++ e :: y) = anywhere (assignsHere n) none y := by
  obtain ⟨hw, hne⟩ := identifier_word hn
  have hword := isWord_of_apart he
  induction x generalizing b with
  | nil => exact (finds_assignsHere hn).skip he
  | cons c x ih =>
    rw [anywhere, Bool.or_eq_false_iff] at hx
    have hhere : assignsHere n b (c :: x ++ e :: y) = false :=
      eq_false_of_imp (wordHere_of_assignsHere hn) (by rw [wordHere_seam hw hword, hx.1])
    rw [List.cons_append] at hhere ⊢
    rw [anywhere, hhere, ih hx.2, Bool.false_or]

end Words

section Pieces

variable {d : Dialect} {n x : List Char} {h : Helper}

/-- A helper whose head does not mention a name assigns to it in its block or not at all. -/
theorem assigns_text (hn : isIdentifier n = true) (hfn : n ≠ "fn".toList)
    (hvoid : n ≠ "void".toList) (hm : h.mentions n = false) :
    anywhere (assignsHere n) none (h.text d) = anywhere (assignsHere n) none h.block := by
  obtain ⟨hw, hne⟩ := identifier_word hn
  have hword : ∀ x : List Char, (∀ c ∈ x, isWord c = true) → n ≠ x → mentions n x = false :=
    fun x hx hnx => eq_false_of_imp (q := false) (fun h => absurd (eq_of_mentions hx h) hnx) rfl
  rw [Helper.mentions, Bool.or_eq_false_iff, Bool.or_eq_false_iff] at hm
  refine assigns_seam hn (by decide) (functionHead_induct (P := fun x => mentions n x = false) rfl
    (fun x y e he hx hy => ?_) ⟨hword _ (List.all_eq_true.1 (by decide)) hfn,
      hword _ (List.all_eq_true.1 (by decide)) hvoid⟩ hm.1.1 hm.1.2
    fun r hr => ?_)
  · have he : isWord e = false := isWord_of_apart (headMark_apart he).1
    rw [mentions, mentions_seam hw hne he, hy, Bool.or_false]
    exact hx
  · rw [Option.mem_def.1 hr] at hm
    exact hm.2

theorem cut_eq_chars {α : Type} {find : Recogniser α} {b : Option Char}
    (h : anywhere (fun b cs => (find b cs).isSome) b x = false) : cut find b x = x.map .char := by
  induction x generalizing b with
  | nil => rw [cut, List.map_nil]
  | cons c x ih =>
    rw [anywhere, Bool.or_eq_false_iff] at h
    have hnone := Option.isNone_iff_eq_none.1 (Option.isSome_eq_false_iff.1 h.1)
    rw [cut, hnone, List.map_cons, ih h.2]

/-- The word without which a dialect declares no shared variable. -/
def sharedWord : Dialect → List Char
  | .wgsl => "workgroup".toList
  | .glsl => "shared".toList

theorem mentions_of_opening? {b : Option Char} {r : List Char} (hb : atWordStart b = true)
    (h : sharedVariable?.opening? d x = some r) :
    anywhere (wordHere (sharedWord d)) b x = true := by
  have hne : sharedWord d ≠ [] := by cases d <;> decide
  cases d with
  | wgsl =>
    obtain ⟨u, w, z, -, hw, hz, rfl⟩ := opening?_wgsl h
    have hlast : atWordStart ((u ++ '<' :: w).getLast?.or b) = true := by
      rw [List.getLast?_append, List.getLast?_cons, Option.some_or, Option.some_or]
      cases hl : w.getLast? with
      | none => exact (by decide : atWordStart (some '<') = true)
      | some c => exact atWordStart_of_apart (isApart_of_blank (hw c (List.mem_of_getLast? hl)))
    have hnext : atWordStart (z ++ '>' :: r).head? = true := by
      cases z with
      | nil => exact (by decide : atWordStart (some '>') = true)
      | cons c z => exact atWordStart_of_apart (isApart_of_blank (hz c List.mem_cons_self))
    -- The word stands behind the bracket, not where the declaration starts.
    rw [← List.cons_append, ← List.append_assoc]
    refine anywhere_prepend (anywhere_wordHere hne ?_)
    show wordHere "workgroup".toList _ _ = true
    rw [wordHere, hlast, after?_self, Option.any_some, hnext]
    rfl
  | glsl =>
    obtain ⟨rfl, hblank⟩ := opening?_glsl h
    obtain ⟨c, hc, hcb⟩ := (Option.any_eq_true ..).1 hblank
    refine anywhere_wordHere hne ?_
    show wordHere "shared".toList _ _ = true
    rw [wordHere, hb, after?_self, Option.any_some, hc, atWordStart_of_apart (isApart_of_blank hcb)]
    rfl

theorem mentions_of_sharedVariable? {b : Option Char}
    (h : (sharedVariable? d b x).isSome = true) :
    anywhere (wordHere (sharedWord d)) b x = true := by
  unfold sharedVariable? at h
  split at h
  · cases h
  rename_i hb
  split at h
  · cases h
  rename_i r hr
  exact mentions_of_opening? (by simpa using hb) hr

/-- A text that does not mention the word for them has no shared variables. -/
theorem hoistShared_eq_self (h : mentions (sharedWord d) x = false) :
    hoistShared d x = (x, []) := by
  have hcut : cut (sharedVariable? d) none x = x.map .char :=
    cut_eq_chars (eq_false_of_imp (anywhere_imp fun _ _ _ => mentions_of_sharedVariable?) h)
  have htext := flatMap_text_cut (sharedVariable? d) none x
  rw [hcut, List.flatMap_map] at htext
  rw [hoistShared, replaceAll, spans, hcut, List.flatMap_map]
  refine Prod.ext htext ?_
  simp

/-- Where a body assigns to a name does not depend on the dialect. -/
theorem assigns_scanned (hn : isIdentifier n = true) (hfn : n ≠ "fn".toList)
    (hvoid : n ≠ "void".toList) (hs : mentions (sharedWord d) x = false)
    (hm : ∀ h ∈ (takeHelpers none x).2, h.mentions n = false) :
    (scanned d x).any (anywhere (assignsHere n) none) =
      ((hoistConstants (takeHelpers none x).1).2 ++ (takeHelpers none x).2.map (·.block) ++
        [(hoistConstants (takeHelpers none x).1).1]).any (anywhere (assignsHere n) none) := by
  have hhelpers : hoistHelpers d x =
      ((takeHelpers none x).1, (takeHelpers none x).2.map (Helper.text d)) := hoistHelpersFrom_eq ..
  have hblocks : ((takeHelpers none x).2.map (Helper.text d)).any (anywhere (assignsHere n) none) =
      ((takeHelpers none x).2.map (·.block)).any (anywhere (assignsHere n) none) := by
    rw [List.any_map, List.any_map, Bool.eq_iff_iff, List.any_eq_true, List.any_eq_true]
    refine exists_congr fun h => and_congr_right fun hh => ?_
    rw [Function.comp_apply, Function.comp_apply, assigns_text hn hfn hvoid (hm h hh)]
  simp only [scanned, hoistShared_eq_self hs, hhelpers, List.any_append, hblocks]

end Pieces

end ComputeKernel.Body

namespace ComputeKernel.Shader

open Text Body

section Slots

variable {d d' : Dialect} {names : List String}

theorem namesFault?_eq (h : ∀ n ∈ names, ∀ d : Dialect, d.isReserved n = false) :
    namesFault? d names = namesFault? d' names := by
  suffices hgo : ∀ earlier, namesFault?.go d earlier names = namesFault?.go d' earlier names from
    hgo []
  induction names with
  | nil => exact fun _ => rfl
  | cons n names ih =>
    intro earlier
    have hn := h n List.mem_cons_self
    rw [namesFault?.go, namesFault?.go, nameFault?, nameFault?, hn, hn,
      ih fun m hm => h m (List.mem_cons_of_mem _ hm)]
    rfl

theorem paramSlots_congr {text text' : List Char} {decls : List (String × Declaration)}
    {index : Nat}
    (h : ∀ p ∈ decls, p.2.type.isImage = true →
      hasStore d p.1.toList text = hasStore d' p.1.toList text') :
    paramSlots d text index decls = paramSlots d' text' index decls := by
  induction decls generalizing index with
  | nil => rfl
  | cons p decls ih =>
    have hkind : slotKind d text p.1 p.2 = slotKind d' text' p.1 p.2 := by
      unfold slotKind inferAccess
      split
      · rename_i hi
        rw [h p List.mem_cons_self hi]
      · rfl
    rw [paramSlots, paramSlots, hkind, ih fun q hq => h q (List.mem_cons_of_mem _ hq)]

end Slots

section Drafts

variable {d d' : Dialect} {names : List String} {config : Config} {body text : List Char}
  {decls : List (String × Declaration)} {log log' : List LogLine}

/-- What can be told of a body before it is assembled, so that both dialects see the same in it. No
parameter has a reserved name, no store function is called, no shared variable is declared, no head
of a helper mentions a parameter, and no marker comes to stand right after an identifier when the
body is taken apart. -/
@[mk_iff]
structure Neutral (names : List String) (text : List Char) : Prop where
  reserved : ∀ n ∈ names, ∀ d : Dialect, d.isReserved n = false
  stores : ∀ d : Dialect, ¬ d.storeFunction.toList <:+: text
  shared : ∀ d, mentions (sharedWord d) text = false
  heads : ∀ n ∈ names, ∀ h ∈ (takeHelpers none (withoutDeclarations names text)).2,
    h.mentions n.toList = false
  markers : ∀ d, ∀ t ∈ scanned d (withoutDeclarations names text), MarkersApart t

instance {p : Dialect → Prop} [DecidablePred p] : Decidable (∀ d, p d) :=
  decidable_of_iff (p .wgsl ∧ p .glsl)
    ⟨fun h d => Dialect.casesOn d h.1 h.2, fun h => ⟨h .wgsl, h .glsl⟩⟩

instance : Decidable (Neutral names text) := decidable_of_iff _ (neutral_iff names text).symm

theorem Neutral.ne (h : Neutral names text) {n : String} (hn : n ∈ names) :
    n.toList ≠ "fn".toList ∧ n.toList ≠ "void".toList := by
  constructor <;> intro he <;> have hr := h.reserved n hn
  · rw [String.toList_inj.1 he] at hr
    exact absurd (hr .wgsl) (by decide)
  · rw [String.toList_inj.1 he] at hr
    exact absurd (hr .glsl) (by decide)

/-- The stores to an image are its visible assignments, and those are the same for each dialect. -/
theorem Neutral.hasStore_eq (h : Neutral names text) (hnames : decls.map (·.1) = names)
    (hfault : ∀ d, namesFault? d names = none) {p : String × Declaration} (hp : p ∈ decls)
    (hi : p.2.type.isImage = true) :
    hasStore d p.1.toList (Parts.ofBody d (decls.map fun p => (p.1, formOf p.2))
        (withoutDeclarations names text)).allText =
      hasStore d' p.1.toList (Parts.ofBody d' (decls.map fun p => (p.1, formOf p.2))
        (withoutDeclarations names text)).allText := by
  have hn : p.1 ∈ names := hnames ▸ List.mem_map_of_mem hp
  have hid := isIdentifier_of_namesFault? (hfault d)
  have hps : Named (decls.map fun p => (p.1, formOf p.2)) := by
    refine ⟨fun q hq => ?_, ?_⟩
    · obtain ⟨r, hr, rfl⟩ := List.mem_map.1 hq
      exact hid r.1 (hnames ▸ List.mem_map_of_mem hr)
    · rw [List.map_map]
      exact hnames ▸ nodup_of_namesFault? (hfault d)
  have hform : (p.1, Form.image (p.2.access == some .readWrite)) ∈
      decls.map fun p => (p.1, formOf p.2) :=
    List.mem_map.2 ⟨p, hp, by rw [formOf, if_pos hi]⟩
  have hcut := cut_withoutDeclarations names text
  have hassigns : ∀ d : Dialect, hasStore d p.1.toList (Parts.ofBody d
      (decls.map fun p => (p.1, formOf p.2)) (withoutDeclarations names text)).allText = _ :=
    fun d => by
      have hstore : ¬ d.storeFunction.toList <:+: withoutDeclarations names text := fun hs =>
        h.stores d ((hcut.mono fun _ => isWord_of_isIdent).isInfix isIdent_storeFunction hs)
      have hshared : mentions (sharedWord d) (withoutDeclarations names text) = false := by
        refine eq_false_of_imp (hcut.mentions (List.all_eq_true.1 ?_) ?_ (.inl rfl)) (h.shared d)
        · cases d <;> decide
        · cases d <;> decide
      rw [hasStore_ofBody hps hform hstore (h.markers d),
        assigns_scanned (hid p.1 hn) (h.ne hn).1 (h.ne hn).2 hshared (h.heads p.1 hn)]
  rw [hassigns d, hassigns d']

theorem bind_congr_ok {α β : Type} {x : Logged α} {f g : α → Logged β}
    (h : ∀ a log log', x log = .ok a log' → f a = g a) : x >>= f = x >>= g := by
  funext log
  rcases hx : x log with ⟨a, log'⟩ | ⟨e, log'⟩
  · rw [bind_of_ok hx, bind_of_ok hx, h a log log' hx]
  · rw [bind_of_error hx, bind_of_error hx]

theorem declareParams_text {hints : NameMap Declaration}
    (h : declareParams names config body log = .ok (text, hints, decls) log') :
    text = withoutDeclarations names body := by
  obtain ⟨_, log₁, -, h⟩ := bind_eq_ok h
  obtain ⟨⟨text', hints'⟩, log₂, he, h⟩ := bind_eq_ok h
  obtain ⟨_, log₃, -, h⟩ := bind_eq_ok h
  obtain ⟨decls', log₄, hr, h⟩ := bind_eq_ok h
  cases h
  exact (extractDeclarations_eq_ok (configured_eq_ok he).1).1

/-- A kernel body has one layout for both dialects, or fails in both for the same reason, and leaves
the same lines in the log. -/
theorem draft_layout_eq (names : List String) (body : List Char) (config : Config)
    (h : Neutral names (stripComments body)) :
    (·.layout) <$> draft names body { config with dialect := .wgsl } =
      (·.layout) <$> draft names body { config with dialect := .glsl } := by
  have hfault : ∀ d d', namesFault? d names = namesFault? d' names := fun d d' =>
    namesFault?_eq h.reserved
  -- The two computations go through the same steps up to the slots, and on from them.
  simp only [draft, map_bind, map_pure, hfault .glsl .wgsl]
  refine bind_congr_ok fun _ _ _ _ => bind_congr_ok fun _ log log' hrefuse => ?_
  have hnone : ∀ d, namesFault? d names = none := fun d =>
    (hfault d .wgsl).trans (refuse_eq_ok_iff.1 hrefuse).1
  refine bind_congr_ok fun ⟨text, hints, decls⟩ log log' hdecls => ?_
  obtain rfl := declareParams_text hdecls
  have hnames := (declareParams_plain hdecls).1
  have hslots : paramSlots .wgsl _ 0 decls = paramSlots .glsl _ 0 decls :=
    paramSlots_congr fun p hp hi => h.hasStore_eq hnames hnone hp hi
  rw [hslots]

/-- A body with an assignment in a helper, to an image that is read nowhere. -/
def tinted : List Char :=
  "function f(i: i32) { q[0][i] += 1.0; } const k = 1; p[k][0];".toList

def tintedConfig : Config :=
  ⟨⟨8, 8, 1⟩, none, NameMap.ofList [("p", .tag "texture"), ("q", .tag "texture")], .wgsl⟩

theorem draft_layout_eq_tinted : Neutral ["p", "q"] (stripComments tinted) ∧
    ((·.layout) <$> draft ["p", "q"] tinted { tintedConfig with dialect := .wgsl } =
      (·.layout) <$> draft ["p", "q"] tinted { tintedConfig with dialect := .glsl }) ∧
    ((·.layout) <$> draft ["p", "q"] tinted tintedConfig).outcome.1.toOption =
      some ⟨[⟨"p", 0, .texture .texture .rgba8unorm .read⟩,
        ⟨"q", 1, .texture .texture .rgba8unorm .write⟩], [], ⟨8, 8, 1⟩⟩ := by
  have h : Neutral ["p", "q"] (stripComments tinted) := by decide +kernel
  exact ⟨h, draft_layout_eq ["p", "q"] tinted tintedConfig h, by decide +kernel⟩

def joinedConfig : Dialect → Config := .mk ⟨8, 8, 1⟩ none (NameMap.ofList [("p", .tag "texture")])

/-- A store that comes about when the body is taken apart is one for a single dialect. -/
theorem draft_layout_ne_joined :
    (¬ uniformMarker <:+: joined ∧ ¬ Dialect.wgsl.storeFunction.toList <:+: joined ∧
      ¬ Dialect.glsl.storeFunction.toList <:+: joined ∧
      mentions "shared".toList joined = false ∧ mentions "workgroup".toList joined = false ∧
      (takeHelpers none joined).2 = []) ∧
    ((·.layout) <$> draft ["p"] joined (joinedConfig .wgsl)).outcome.1.toOption =
      some ⟨[⟨"p", 0, .texture .texture .rgba8unorm .write⟩], [], ⟨8, 8, 1⟩⟩ ∧
    ((·.layout) <$> draft ["p"] joined (joinedConfig .glsl)).outcome.1.toOption =
      some ⟨[⟨"p", 0, .texture .texture .rgba8unorm .read⟩], [], ⟨8, 8, 1⟩⟩ := by
  decide +kernel

end Drafts

end ComputeKernel.Shader
