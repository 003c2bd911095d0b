import ComputeKernel.Proofs.Emission
import Mathlib.Data.List.Nodup

/-!
# The layout of an assembled kernel

A kernel body is assembled with one slot for each parameter, in the order of the parameters. What a
parameter is was settled before (`settled?`), and the slot, the form in which the uses of the
parameter are phrased and the settled declaration agree (`draft_assembled`).
-/

namespace ComputeKernel

open Text Body Shader

section Maps

variable {α : Type} {name : String}

theorem NameMap.find?_insertEntry (n : String) (a : α) (l : List (String × α)) :
    (insertEntry n a l).find? (·.1 == name) =
      if n = name then some (n, a) else l.find? (·.1 == name) := by
  induction l with
  | nil => by_cases h : n = name <;> simp [insertEntry, h]
  | cons e l ih =>
    rw [insertEntry]
    split
    · by_cases h : n = name <;> simp [List.find?_cons, h]
    · split
      · rename_i he
        by_cases h : n = name
        · simp [h]
        · have hne : e.1 ≠ name := he ▸ h
          simp [h, hne]
      · rename_i he
        rw [List.find?_cons, ih, List.find?_cons]
        by_cases h : n = name
        · have hne : (e.1 == name) = false := by
            rw [beq_eq_false_iff_ne]
            exact fun hn => he (h.trans hn.symm)
          simp [h, hne]
        · simp [h]

theorem NameMap.get?_insert (m : NameMap α) (n : String) (a : α) :
    (m.insert n a).get? name = if n = name then some a else m.get? name := by
  unfold get? insert
  rw [find?_insertEntry]
  split <;> rfl

/-- The last entry of a name counts. -/
theorem NameMap.get?_ofList (l : List (String × α)) :
    (NameMap.ofList l).get? name = (l.reverse.find? (·.1 == name)).map (·.2) := by
  suffices h : ∀ m : NameMap α, (l.foldl (fun m e => m.insert e.1 e.2) m).get? name =
      ((l.reverse.find? (·.1 == name)).map (·.2)).or (m.get? name) by
    have hl := h .empty
    rwa [show (NameMap.empty : NameMap α).get? name = none from rfl, Option.or_none] at hl
  induction l with
  | nil => simp
  | cons e l ih =>
    intro m
    rw [List.foldl_cons, ih, NameMap.get?_insert, List.reverse_cons, List.find?_append]
    by_cases he : e.1 = name <;>
      rcases l.reverse.find? (·.1 == name) with _ | e' <;> simp [he]

end Maps

section Declarations

variable {config : Config} {name : String} {decls : List (String × List Char)}

/-- What a parameter is settled to be, given the declarations in a body: what the configuration says
about it, or else what the last declaration of it says. A parameter about which nothing is said is a
buffer of floats. -/
def Config.settled? (config : Config) (decls : List (String × List Char)) (name : String) :
    Option Declaration :=
  match config.params.get? name, decls.reverse.find? (·.1 == name) with
  | some spec, _ => spec.resolve.toOption
  | none, some d => Declaration.ofShaderType? d.2
  | none, none => some ⟨.buffer .f32, none, none⟩

theorem find?_declaredHints {hints : List (String × Declaration)}
    (h : declaredHints decls = .ok hints) :
    (decls.reverse.find? (·.1 == name)).map (fun d => Declaration.ofShaderType? d.2) =
      (hints.reverse.find? (·.1 == name)).map fun d => some d.2 := by
  induction decls generalizing hints with
  | nil =>
    cases h
    rfl
  | cons d decls ih =>
    unfold declaredHints at h
    rw [List.mapM_cons] at h
    obtain ⟨e, he, h⟩ := except_bind_eq_ok h
    obtain ⟨rest, hrest, h⟩ := except_bind_eq_ok h
    cases h
    split at he
    · rename_i decl hd
      cases he
      rw [List.reverse_cons, List.reverse_cons, List.find?_append, List.find?_append,
        Option.map_or, Option.map_or, ih hrest]
      by_cases hn : d.1 = name <;> simp [hn, hd]
    · cases he

/-- The hint for a parameter is what its last declaration says. -/
theorem extractDeclarations_eq_ok {names : List String} {body text : List Char}
    {hints : NameMap Declaration} (h : extractDeclarations names body = .ok (text, hints)) :
    text = withoutDeclarations names body ∧ ∀ name,
      ((paramDeclarations names body).reverse.find? (·.1 == name)).map
        (fun d => Declaration.ofShaderType? d.2) = (hints.get? name).map some := by
  obtain ⟨l, hl, h⟩ := except_map_eq_ok h
  cases h
  refine ⟨rfl, fun name => ?_⟩
  rw [find?_declaredHints hl, NameMap.get?_ofList, Option.map_map]
  rfl

theorem resolveParams_settled {names : List String} {body text : List Char}
    {hints : NameMap Declaration} {params : List (String × Declaration)}
    (he : extractDeclarations names body = .ok (text, hints))
    (hr : config.resolveParams hints names = .ok params) :
    ∀ p ∈ params, config.settled? (paramDeclarations names body) p.1 = some p.2 := by
  intro p hp
  obtain ⟨name, -, hn⟩ := exists_of_mem_mapM hr hp
  obtain ⟨o, ho, rfl⟩ := except_map_eq_ok hn
  unfold Config.declared at ho
  unfold Config.settled?
  rcases hc : config.params.get? name with _ | spec <;> rw [hc] at ho
  · cases ho
    have hg := (extractDeclarations_eq_ok he).2 name
    rcases hd : (paramDeclarations names body).reverse.find? (·.1 == name) with _ | d <;>
      rcases hh : hints.get? name with _ | decl <;> simp [hd, hh] at hg ⊢
    · rfl
    · exact hg
  · obtain ⟨d, hd, rfl⟩ := except_map_eq_ok ho
    simp [hd, Except.toOption]

end Declarations

section Slots

variable {d : Dialect} {text : List Char} {decl : Declaration} {kind : SlotKind} {name : String}

/-- How the uses of a parameter are phrased whose slot has some kind. -/
def SlotKind.form : SlotKind → Form
  | .buffer _ => .buffer
  | .texture _ _ access => .image (access == .readWrite)

theorem slotKind_form (h : slotKind d text name decl = .ok kind) :
    kind.form = formOf decl ∧ kind.isTexture = decl.type.isImage := by
  unfold slotKind at h
  unfold formOf
  split at h
  · rename_i hi
    split at h
    · cases h
      rw [if_pos hi, hi]
      refine ⟨?_, rfl⟩
      unfold SlotKind.form inferAccess
      rcases decl.access with _ | access
      · by_cases hs : hasStore d name.toList text = true <;> simp [hs]
      · simp
    · cases h
  · rename_i hi
    cases h
    simp [hi, SlotKind.form, SlotKind.isTexture]

theorem paramSlots_form {decls : List (String × Declaration)} {index : Nat}
    {slots : List ParamSlot} (h : paramSlots d text index decls = .ok slots) :
    slots.map (fun s => (s.name, s.kind.form)) = decls.map (fun p => (p.1, formOf p.2)) ∧
      ∀ s ∈ slots, ∃ p ∈ decls, p.1 = s.name ∧ slotKind d text p.1 p.2 = .ok s.kind := by
  induction decls generalizing index slots with
  | nil =>
    cases h
    simp
  | cons p decls ih =>
    obtain ⟨kind, hk, h⟩ := except_bind_eq_ok h
    obtain ⟨slots', hs, h⟩ := except_bind_eq_ok h
    cases h
    obtain ⟨hm, hall⟩ := ih hs
    refine ⟨by simp [hm, (slotKind_form hk).1], fun s hm => ?_⟩
    rcases List.mem_cons.1 hm with rfl | hm
    · exact ⟨p, List.mem_cons_self, rfl, hk⟩
    · obtain ⟨q, hq, hqs⟩ := hall s hm
      exact ⟨q, List.mem_cons_of_mem p hq, hqs⟩

theorem nodup_of_namesFault? {names : List String} (h : namesFault? d names = none) :
    names.Nodup := by
  suffices hgo : ∀ earlier : List String, earlier.Nodup → namesFault?.go d earlier names = none →
      (earlier ++ names).Nodup from hgo [] List.nodup_nil h
  clear h
  induction names with
  | nil => exact fun earlier he _ => by simpa using he
  | cons n names ih =>
    intro earlier he h
    rw [namesFault?.go, Option.or_eq_none_iff] at h
    have hn : n ∉ earlier := by
      intro hn
      have hf := h.1
      unfold nameFault? at hf
      split_ifs at hf with h₁ h₂ h₃
      exact h₃ (by simpa using hn)
    have hnext := ih (earlier ++ [n]) (he.append (List.nodup_singleton n) (by simpa using hn)) h.2
    simpa using hnext

theorem localSize_of_fault? {config : Config} (h : config.fault? = none) :
    config.localSize.hasZero = false := by
  unfold Config.fault? at h
  split at h
  · cases h
  · rename_i hz
    simpa using hz

theorem SlotKind.Plain.texture_type {type : ParamType} {format : ImageFormat} {access : Access}
    (h : SlotKind.Plain (.texture type format access)) :
    type = format.paramType ∧ type.scalar ≠ .f64 := by
  cases h
  refine ⟨rfl, ?_⟩
  cases format <;> simp [ImageFormat.paramType, ParamType.scalar, ParamType.texture,
    ParamType.image, ImageFormat.sample]

end Slots

section Drafts

variable {names : List String} {body : List Char} {config : Config} {log log' : List LogLine}
  {draft : Draft}

/-- What the parts of a layout have in common with the parameters and the declarations that a kernel
body was assembled from. -/
structure Layout.Assembled (names : List String) (config : Config)
    (decls : List (String × List Char)) (l : Layout) : Prop where
  named : l.params.map (·.name) = names
  distinct : names.Nodup
  index : ∀ (i : Nat) (s : ParamSlot), l.params[i]? = some s → s.index = i
  settled : ∀ s ∈ l.params, ∃ decl, config.settled? decls s.name = some decl ∧
    (s.kind.isTexture = true ↔ decl.type.isImage = true) ∧ formOf decl = s.kind.form
  texture : ∀ s ∈ l.params, ∀ type format access, s.kind = .texture type format access →
    type = format.paramType ∧ type.scalar ≠ .f64
  buffer : ∀ s ∈ l.params, ∀ type, s.kind = .buffer type → type.isImage = false
  uniformNames : (l.uniforms.map (·.name)).Nodup
  uniformIndex : ∀ (i : Nat) (s : UniformSlot), l.uniforms[i]? = some s → s.index = i
  uniformKind : ∀ s ∈ l.uniforms, s.kind ∈ [.u32, .i32, .f32]
  size : l.workgroupSize.x ≠ 0 ∧ l.workgroupSize.y ≠ 0 ∧ l.workgroupSize.z ≠ 0

/-- What stands behind a draft: the declarations are cut out of the body, the parameters are settled
and phrased, and the slots are made from the text that results. -/
theorem draft_parts (h : Shader.draft names body config log = .ok draft log') :
    config.fault? = none ∧ ∃ text hints decls,
      extractDeclarations names (stripComments body) = .ok (text, hints) ∧
      config.resolveParams hints names = .ok decls ∧
      draft.layout.uniforms = discoverUniforms text ∧
      draft.layout.workgroupSize = config.localSize ∧
      ∃ parts, parts = Parts.ofBody draft.dialect (decls.map fun p => (p.1, formOf p.2)) text ∧
        paramSlots draft.dialect parts.allText 0 decls = .ok draft.layout.params ∧
        draft.source = draft.dialect.emit draft.layout parts := by
  obtain ⟨_, log₁, hf, h⟩ := bind_eq_ok h
  obtain ⟨_, log₂, -, h⟩ := bind_eq_ok h
  obtain ⟨⟨text, hints, decls⟩, log₃, hd, h⟩ := bind_eq_ok h
  obtain ⟨_, log₄, -, h⟩ := bind_eq_ok h
  obtain ⟨params, log₅, hp, h⟩ := bind_eq_ok h
  obtain ⟨_, log₆, -, h⟩ := bind_eq_ok h
  cases h
  obtain ⟨_, log₇, -, hd⟩ := bind_eq_ok hd
  obtain ⟨⟨text', hints'⟩, log₈, he, hd⟩ := bind_eq_ok hd
  obtain ⟨_, log₉, -, hd⟩ := bind_eq_ok hd
  obtain ⟨decls', log₁₀, hr, hd⟩ := bind_eq_ok hd
  cases hd
  exact ⟨(refuse_eq_ok_iff.1 hf).1, text, hints, decls, (configured_eq_ok he).1,
    (configured_eq_ok hr).1, rfl, rfl, _, rfl, (configured_eq_ok hp).1, rfl⟩

/-- A kernel body that gets as far as a shader text has a slot for each parameter, in their order
and with their names, which differ. A slot is a texture if the parameter is settled to be an image,
and its format says its type; the uses of the parameter are phrased as the access mode of the slot
asks for. The uniforms are numbered in order, their names differ, and they are no doubles. -/
theorem draft_assembled (h : Shader.draft names body config log = .ok draft log') :
    draft.layout.Assembled names config (paramDeclarations names (stripComments body)) ∧
      draft.source = draft.dialect.emit draft.layout (Parts.ofBody draft.dialect
        (draft.layout.params.map fun s => (s.name, s.kind.form))
        (withoutDeclarations names (stripComments body))) := by
  obtain ⟨hnames, hn, hi, hplain, -⟩ := draft_eq_ok h
  obtain ⟨hfault, text, hints, decls, he, hr, hu, hz, parts, rfl, hs, hsource⟩ := draft_parts h
  obtain ⟨rfl, -⟩ := extractDeclarations_eq_ok he
  obtain ⟨hform, hslots⟩ := paramSlots_form hs
  have hnum := discoverUniforms_numbered (withoutDeclarations names (stripComments body))
  rw [← hu] at hnum
  refine ⟨?_, by rw [hsource, hform]⟩
  refine ⟨hn, nodup_of_namesFault? hnames, fun i s => index_eq hi, ?_, ?_, ?_, hnum.distinct,
    fun i s => index_eq hnum.index, ?_, ?_⟩
  · intro s hm
    obtain ⟨p, hp, hps, hk⟩ := hslots s hm
    obtain ⟨hf, ht⟩ := slotKind_form hk
    exact ⟨p.2, hps ▸ resolveParams_settled he hr p hp, by rw [ht], hf.symm⟩
  · intro s hm type format access hk
    have hp := hplain s hm
    rw [hk] at hp
    exact hp.texture_type
  · intro s hm type hk
    have hp := hplain s hm
    rw [hk] at hp
    cases hp
    rfl
  · intro s hm
    have hk := hnum.kinds s hm
    cases hkind : s.kind <;> simp_all
  · have hsize := localSize_of_fault? hfault
    rw [← hz] at hsize
    simpa [Extent.hasZero, and_assoc] using hsize

/-- A body that declares one parameter twice, while the configuration says what another one is and
nothing says what the third one is. -/
def redeclared : String :=
  "var img: array<u32>; var img: texture_storage_2d<r32uint, read_write>; " ++
    "let t: vec4<i32> = this.uniform.tone.x; dst[0] = f32(img[0, 0].r); " ++
    "res[0, 0] = this.uniform.gain;"

def redeclaredConfig : Config :=
  ⟨⟨8, 4, 1⟩, none, NameMap.ofList [("res", .detailed "float[][]" none (some "w"))], .wgsl⟩

def redeclaredLayout : Layout where
  params := [⟨"img", 0, .texture (.image .u32) .r32uint .readWrite⟩,
    ⟨"dst", 1, .buffer (.buffer .f32)⟩, ⟨"res", 2, .texture (.image .f32) .rgba32float .write⟩]
  uniforms := [⟨"tone", .i32, 0⟩, ⟨"gain", .u32, 1⟩]
  workgroupSize := ⟨8, 4, 1⟩

theorem draft_assembled_redeclared : ∃ draft log,
    Shader.draft ["img", "dst", "res"] redeclared.toList redeclaredConfig [] = .ok draft log ∧
      draft.layout = redeclaredLayout ∧
      redeclaredLayout.Assembled ["img", "dst", "res"] redeclaredConfig
        (paramDeclarations ["img", "dst", "res"] (stripComments redeclared.toList)) ∧
      draft.source = draft.dialect.emit redeclaredLayout (Parts.ofBody draft.dialect
        [("img", .image true), ("dst", .buffer), ("res", .image false)]
        (withoutDeclarations ["img", "dst", "res"] (stripComments redeclared.toList))) := by
  have hl : (match Shader.draft ["img", "dst", "res"] redeclared.toList redeclaredConfig [] with
      | .ok draft _ => decide (draft.layout = redeclaredLayout)
      | .error .. => false) = true := by
    decide +kernel
  rcases hr : Shader.draft ["img", "dst", "res"] redeclared.toList redeclaredConfig [] with
    ⟨draft, log⟩ | ⟨_, _⟩ <;> rw [hr] at hl
  · obtain ⟨ha, hs⟩ := draft_assembled hr
    have hl := of_decide_eq_true hl
    rw [hl] at ha hs
    exact ⟨draft, log, rfl, hl, ha, hs⟩
  · cases hl

end Drafts

end ComputeKernel
