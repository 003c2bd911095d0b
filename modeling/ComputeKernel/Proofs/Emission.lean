import Mathlib.Data.List.Forall2
import ComputeKernel.Proofs.Drafting
import ComputeKernel.Proofs.Wording

/-!
# Emitted shaders

The layout of a kernel body is written out as declarations, and a front end reads them back as
variables. Suppose that it reads each line as the variable that the line declares (`Describes`).
Then the bind group layouts that are made from the slots of the body are those that would be read
off its shader (`emitted_shader_reflects`), and so is the layout itself, but for one difference: an
image that is only read is a sampled texture in WGSL, whose declaration does not say its format.
-/

namespace ComputeKernel

open Text Body Shader

section Names

/-- Names that are no fault can be used in a shader. -/
theorem isIdentifier_of_namesFault? {d : Dialect} {names : List String}
    (h : namesFault? d names = none) : ∀ n ∈ names, isIdentifier n.toList = true := by
  suffices hgo : ∀ earlier, namesFault?.go d earlier names = none →
      ∀ n ∈ names, isIdentifier n.toList = true from hgo [] h
  clear h
  induction names with
  | nil => simp
  | cons n names ih =>
    intro earlier h
    rw [namesFault?.go, Option.or_eq_none_iff] at h
    have hn : isIdentifier n.toList = true := by
      unfold nameFault? at h
      by_cases hi : isIdentifier n.toList = true
      · exact hi
      · simp [hi] at h
    intro n' hn'
    rcases List.mem_cons.1 hn' with rfl | hn'
    · exact hn
    · exact ih _ h.2 n' hn'

theorem isIdentifier_of_uniformAccess? {b : Option Char} {cs name rest : List Char} {member : Bool}
    (h : uniformAccess? b cs = some ((name, member), rest)) : isIdentifier name = true := by
  unfold uniformAccess? at h
  split at h
  · cases h
  · split at h
    · cases h
    · rename_i hn
      have hi := isIdentifier_of_identifier? hn
      split at h
      · split at h <;> cases h <;> exact hi
      · cases h
        exact hi

theorem exists_find_of_mem_cut {α : Type} {find : Recogniser α} {span : List Char} {a : α}
    {before : Option Char} {cs : List Char} (h : Piece.found span a ∈ cut find before cs) :
    ∃ b cs' rest, find b cs' = some (a, rest) := by
  fun_induction cut find before cs with
  | case1 => cases h
  | case2 _ c r _ ih => exact ih (by simpa using h)
  | case3 _ c r _ _ hf _ _ ih =>
    rcases List.mem_cons.1 h with h | h
    · rw [Piece.found.injEq] at h
      exact ⟨_, _, _, h.2 ▸ hf⟩
    · exact ih h
  | case4 _ c r _ _ _ _ ih => exact ih (by simpa using h)

/-- Every access was found in the text. -/
theorem exists_piece_of_mem_accessesFrom {a : UniformAccess}
    (pieces : List (Piece (List Char × Bool))) {statement : List Char}
    (h : a ∈ accessesFrom statement pieces) :
    ∃ span, Piece.found span (a.name, a.hasMember) ∈ pieces := by
  induction pieces generalizing statement with
  | nil => cases h
  | cons p pieces ih =>
    rcases p with c | ⟨span, name, member⟩
    · obtain ⟨span, hs⟩ := ih h
      exact ⟨span, List.mem_cons_of_mem _ hs⟩
    · rcases List.mem_cons.1 h with rfl | h
      · exact ⟨span, List.mem_cons_self⟩
      · obtain ⟨span, hs⟩ := ih h
        exact ⟨span, List.mem_cons_of_mem _ hs⟩

theorem isIdentifier_of_mem_uniformAccesses {text : List Char} {a : UniformAccess}
    (h : a ∈ uniformAccesses text) : isIdentifier a.name = true := by
  obtain ⟨span, hs⟩ := exists_piece_of_mem_accessesFrom _ h
  obtain ⟨b, cs, rest, hf⟩ := exists_find_of_mem_cut hs
  exact isIdentifier_of_uniformAccess? hf

theorem vectorScalar?_ne_f64 (word : List Char) : vectorScalar? word ≠ some .f64 := by
  unfold vectorScalar?
  simp only
  repeat' split
  all_goals simp

/-- No access has a type of doubles. -/
theorem scalar?_ne_f64 {a : UniformAccess} : a.scalar? ≠ some .f64 := by
  intro h
  unfold UniformAccess.scalar? at h
  split at h
  · obtain ⟨type, -, h⟩ := Option.bind_eq_some_iff.1 h
    exact vectorScalar?_ne_f64 type h
  · simp at h

/-- Uniforms that are numbered from 0 on and have names that a shader can use. The names differ, and
there are no doubles. -/
structure Numbered (slots : List UniformSlot) : Prop where
  index : slots.map (·.index) = List.range slots.length
  names : ∀ s ∈ slots, isIdentifier s.name.toList = true
  distinct : (slots.map (·.name)).Nodup
  kinds : ∀ s ∈ slots, s.kind ≠ .f64

/-- An access changes the kind of a uniform or adds one with the next number. -/
theorem Numbered.addAccess {slots : List UniformSlot} {a : UniformAccess} (h : Numbered slots)
    (ha : isIdentifier a.name = true) : Numbered (addAccess slots a) := by
  unfold Body.addAccess
  simp only
  split
  · split
    · rename_i kind hk
      have hname : ∀ s : UniformSlot,
          (if s.name == String.ofList a.name then { s with kind := kind } else s).name =
            s.name := by
        intro s
        split <;> rfl
      constructor
      · rw [List.map_map, List.length_map, ← h.index]
        refine List.map_congr_left fun s _ => ?_
        rw [Function.comp_apply]
        split <;> rfl
      · intro s hs
        obtain ⟨t, ht, rfl⟩ := List.mem_map.1 hs
        rw [hname]
        exact h.names t ht
      · have hmap := List.map_congr_left (l := slots) fun s _ => hname s
        rw [List.map_map]
        exact hmap ▸ h.distinct
      · intro s hs
        obtain ⟨t, ht, rfl⟩ := List.mem_map.1 hs
        split
        · exact fun hf => scalar?_ne_f64 (hk.trans (congrArg some hf))
        · exact h.kinds t ht
    · exact h
  · rename_i hn
    constructor
    · simp [h.index, List.range_succ]
    · intro s hs
      rcases List.mem_append.1 hs with hs | hs
      · exact h.names s hs
      · rw [List.mem_singleton] at hs
        simp [hs, ha]
    · simp only [List.any_eq_true, beq_iff_eq, not_exists, not_and] at hn
      rw [List.map_append, List.nodup_append]
      refine ⟨h.distinct, by simp, ?_⟩
      simp only [List.mem_map, List.map_cons, List.map_nil, List.mem_singleton]
      rintro _ ⟨s, hs, rfl⟩ _ rfl
      exact hn s hs
    · intro s hs
      rcases List.mem_append.1 hs with hs | hs
      · exact h.kinds s hs
      · rw [List.mem_singleton] at hs
        rw [hs]
        rcases hk : a.scalar? with _ | kind
        · simp
        · exact fun hf => scalar?_ne_f64 (hk.trans (congrArg some hf))

/-- The uniforms of a text are numbered as they are found. -/
theorem discoverUniforms_numbered (text : List Char) : Numbered (discoverUniforms text) := by
  unfold discoverUniforms
  suffices h : ∀ (accesses : List UniformAccess) (slots : List UniformSlot), Numbered slots →
      (∀ a ∈ accesses, isIdentifier a.name = true) → Numbered (accesses.foldl addAccess slots) from
    h _ [] ⟨rfl, by simp, by simp, by simp⟩ fun a ha => isIdentifier_of_mem_uniformAccesses ha
  intro accesses
  induction accesses with
  | nil => exact fun slots h _ => h
  | cons a accesses ih =>
    intro slots h ha
    exact ih _ (h.addAccess (ha a List.mem_cons_self)) fun b hb => ha b (List.mem_cons_of_mem a hb)

end Names

/-- The scalar type that a front end finds where a slot has a scalar. -/
def Scalar.type : Scalar → ScalarType
  | u32 => .u32
  | i32 => .i32
  | f32 => .f32
  | f64 => .f64

/-- How a front end sees an image of an access mode. -/
def Access.storage : Access → StorageAccess
  | read => ⟨true, false⟩
  | write => ⟨false, true⟩
  | readWrite => ⟨true, true⟩

namespace Shader

section Variables

/-- The variable that the declaration of a parameter declares. -/
def paramVar (d : Dialect) (s : ParamSlot) : GlobalVar :=
  let var := fun space type => ⟨some s.name, space, some ⟨paramGroup, s.index⟩, type⟩
  match d, s.kind with
  | .wgsl, .buffer type =>
    var (.storage ⟨true, true⟩) (.array (.scalar type.scalar.type) none)
  | .glsl, .buffer type =>
    var (.storage ⟨true, true⟩) (.struct [(some "data", .array (.scalar type.scalar.type) none)])
  | .wgsl, .texture _ format .read =>
    var .handle (.image .d2 false (.sampled format.sample.type false))
  | _, .texture _ format access =>
    var .handle (.image .d2 false (.storage (some format) access.storage))

/-- The variable that the declaration of a uniform declares, in GLSL a block with no instance. -/
def uniformVar (d : Dialect) (s : UniformSlot) : GlobalVar :=
  match d with
  | .wgsl => ⟨some s.name, .uniform, some ⟨uniformGroup, s.index⟩, .vector 4 s.kind.type⟩
  | .glsl =>
    ⟨none, .uniform, some ⟨uniformGroup, s.index⟩, .struct [(some s.name, .vector 4 s.kind.type)]⟩

/-- The format that a sampled texture of a scalar is taken to have. -/
def sampledAs : Scalar → ImageFormat
  | .u32 => .rgba32uint
  | .i32 => .rgba32sint
  | .f32 | .f64 => .rgba8unorm

/-- What becomes of the kind of a slot when it is written out and read back. -/
def reflectedKind : Dialect → SlotKind → SlotKind
  | .wgsl, .texture _ format .read =>
    .texture (sampledAs format.sample).paramType (sampledAs format.sample) .read
  | _, kind => kind

@[simp] theorem slot?_type (kind : Scalar) : kind.type.slot? = some kind := by cases kind <;> rfl

@[simp] theorem mode_storage (access : Access) : access.storage.mode = access := by
  cases access <;> rfl

/-- The words that are written for scalars, formats and modes have the sense that they are written
for. -/
theorem sense?_name (kind : Scalar) : sense? .wgsl kind.name = some (.scalar kind.type) := by
  cases kind <;> rfl

theorem sense?_keyword (kind : Scalar) : sense? .glsl kind.keyword = some (.scalar kind.type) := by
  cases kind <;> rfl

theorem sense?_wgsl (format : ImageFormat) : sense? .wgsl format.wgsl = some (.format format) := by
  cases format <;> rfl

theorem sense?_glsl (format : ImageFormat) : sense? .glsl format.glsl = some (.format format) := by
  cases format <;> rfl

theorem sense?_access (access : Access) :
    sense? .wgsl access.name = some (.access access.storage) := by
  cases access <;> rfl

theorem sense?_glslImage (format : ImageFormat) :
    sense? .glsl (Dialect.glslImage format.sample) = some (.image format.sample) := by
  cases format <;> rfl

theorem sense?_glslType (s : UniformSlot) :
    sense? .glsl s.glslType = some (.vector s.kind.type) := by
  unfold UniformSlot.glslType
  cases s.kind <;> rfl

theorem isIdentifier_append {u w : String} (hu : isIdentifier u.toList = true) (hw : Word w) :
    isIdentifier (u ++ w).toList = true := by
  obtain ⟨c, r, hc, hs, hr⟩ := identifier_cons hu
  rw [String.toList_append, hc, List.cons_append, isIdentifier, List.all_append, hs,
    List.all_eq_true.2 hr, List.all_eq_true.2 hw.isIdent]
  rfl

theorem wgslPlace_eq (group index : Nat) :
    Dialect.wgslPlace group index = placeText .wgsl ⟨group, index⟩ := rfl

theorem glslPlace_eq (group index : Nat) (qualifier : String) :
    Dialect.glslPlace group index qualifier =
      placeText .glsl ⟨group, index⟩ ++ qualifier ++ ") " := rfl

/-- The declaration of a parameter declares a variable that is bound in its place. -/
theorem declares_paramBinding (d : Dialect) {s : ParamSlot}
    (hn : isIdentifier s.name.toList = true) : Declares d (d.paramBinding s) (paramVar d s) := by
  rcases s with ⟨name, index, type | ⟨type, format, access⟩⟩
  · cases d with
    | wgsl =>
      simp only [Dialect.paramBinding, wgslPlace_eq]
      exact .wgslBuffer hn (sense?_name _)
    | glsl =>
      have ht : Dialect.glsl.paramBinding ⟨name, index, .buffer type⟩ =
          placeText .glsl ⟨paramGroup, index⟩ ++ "std430) buffer " ++ ("Slot_" ++ name) ++
            " \x7b " ++ type.scalar.keyword ++ " data[]; \x7d " ++ name ++ ";" := by
        simp [← String.toList_inj, Dialect.paramBinding, glslPlace_eq]
      rw [ht]
      exact .glslBuffer (isIdentifier_append (by decide) (word_of_isIdentifier hn)) hn
        (sense?_keyword _)
  · cases d with
    | wgsl =>
      cases access <;> simp only [Dialect.paramBinding, wgslPlace_eq]
      · exact .wgslTexture hn (sense?_name _)
      · exact .wgslStorageTexture hn (sense?_wgsl _) (sense?_access .write)
      · exact .wgslStorageTexture hn (sense?_wgsl _) (sense?_access .readWrite)
    | glsl =>
      -- The two modes that have a word of their own, and the one that has none.
      have ht : ∀ (mode : String), Dialect.glslMemory access = mode ++ " " →
          Dialect.glsl.paramBinding ⟨name, index, .texture type format access⟩ =
            placeText .glsl ⟨paramGroup, index⟩ ++ format.glsl ++ ") uniform " ++ mode ++ " " ++
              Dialect.glslImage format.sample ++ " " ++ name ++ ";" := by
        intro mode hm
        simp [← String.toList_inj, Dialect.paramBinding, glslPlace_eq, hm]
      cases access with
      | read =>
        rw [ht "readonly" rfl]
        exact .glslQualifiedImage hn (sense?_glsl _) rfl (sense?_glslImage _)
      | write =>
        rw [ht "writeonly" rfl]
        exact .glslQualifiedImage hn (sense?_glsl _) rfl (sense?_glslImage _)
      | readWrite =>
        have ht : Dialect.glsl.paramBinding ⟨name, index, .texture type format .readWrite⟩ =
            placeText .glsl ⟨paramGroup, index⟩ ++ format.glsl ++ ") uniform " ++
              Dialect.glslImage format.sample ++ " " ++ name ++ ";" := by
          simp [← String.toList_inj, Dialect.paramBinding, glslPlace_eq, Dialect.glslMemory]
        rw [ht]
        exact .glslImage hn (sense?_glsl _) (sense?_glslImage _)

/-- So does the declaration of a uniform. -/
theorem declares_uniformBinding (d : Dialect) {s : UniformSlot}
    (hn : isIdentifier s.name.toList = true) :
    Declares d (d.uniformBinding s) (uniformVar d s) := by
  cases d with
  | wgsl =>
    have ht : Dialect.wgsl.uniformBinding s = placeText .wgsl ⟨uniformGroup, s.index⟩ ++
        "var<uniform> " ++ s.name ++ ": vec4<" ++ s.kind.name ++ ">;" := by
      simp [← String.toList_inj, Dialect.uniformBinding, wgslPlace_eq, UniformSlot.wgslType]
    rw [ht]
    exact .wgslUniform hn (sense?_name _)
  | glsl =>
    have ht : Dialect.glsl.uniformBinding s = placeText .glsl ⟨uniformGroup, s.index⟩ ++
        "std140) uniform " ++ ("Uniform_" ++ s.name) ++ " \x7b " ++ s.glslType ++ " " ++ s.name ++
          "; \x7d;" := by
      simp [← String.toList_inj, Dialect.uniformBinding, glslPlace_eq]
    rw [ht]
    exact .glslUniform (isIdentifier_append (by decide) (word_of_isIdentifier hn)) hn
      (sense?_glslType s)

theorem place_paramVar (d : Dialect) (s : ParamSlot) :
    (paramVar d s).place = some ⟨paramGroup, s.index⟩ := by
  unfold paramVar
  split <;> rfl

theorem place_uniformVar (d : Dialect) (s : UniformSlot) :
    (uniformVar d s).place = some ⟨uniformGroup, s.index⟩ := by
  cases d <;> rfl

theorem sampledFormat?_type (kind : Scalar) : sampledFormat? kind.type = some (sampledAs kind) := by
  cases kind <;> rfl

theorem sampleScalar_type (format : ImageFormat) :
    sampleScalar format.sample.type = format.sample := by
  cases format <;> rfl

/-- The slot comes back from the variable, but for the format of a sampled texture. -/
theorem paramSlot?_paramVar (d : Dialect) {s : ParamSlot} (hk : s.kind.Plain) :
    (paramVar d s).paramSlot? = some { s with kind := reflectedKind d s.kind } := by
  rcases s with ⟨name, index, kind⟩
  cases hk with
  | buffer kind =>
    cases d <;>
      simp [GlobalVar.paramSlot?, paramVar, paramKind?, arrayElement?, arrayElement?.lastElement?,
        reflectedKind, GlobalVar.binding, ParamType.buffer, ParamType.scalar]
  | texture format access =>
    cases d <;> cases access <;>
      simp [GlobalVar.paramSlot?, paramVar, paramKind?, imageKind?, sampledFormat?_type,
        reflectedKind, GlobalVar.binding]

theorem entryOf?_paramVar (d : Dialect) (s : ParamSlot) :
    (paramVar d s).entryOf? = some (paramEntry d s) := by
  rcases s with ⟨name, index, type | ⟨type, format, access⟩⟩
  · cases d <;> rfl
  · cases d <;> cases access <;>
      simp [GlobalVar.entryOf?, paramVar, entryType?, paramEntry, sampleScalar_type,
        GlobalVar.binding]

theorem uniformSlot?_uniformVar (d : Dialect) (s : UniformSlot) :
    (uniformVar d s).uniformSlot? = some s := by
  cases d <;>
    simp [GlobalVar.uniformSlot?, uniformVar, uniformKind?, quadScalar?, GlobalVar.binding]

theorem entryOf?_uniformVar (d : Dialect) (s : UniformSlot) :
    (uniformVar d s).entryOf? = some ⟨s.index, .uniform⟩ := by
  cases d <;> rfl

end Variables

section Modules

variable {d : Dialect} {l : Layout} {m : ShaderModule}

/-- The lines in which the slots of a layout are declared. -/
def declarations (d : Dialect) (l : Layout) : List String :=
  l.params.map d.paramBinding ++ l.uniforms.map d.uniformBinding

/-- The variables of a shader that are bound are those that the lines of a layout declare, in the
order of the lines, and its entry point has the workgroups of the layout. -/
structure Describes (d : Dialect) (l : Layout) (m : ShaderModule) : Prop where
  vars : List.Forall₂ (Declares d) (declarations d l) (m.vars.filter (·.place.isSome))
  main : m.main?.map (·.workgroupSize) = some l.workgroupSize

/-- The layout that is found in a shader that was emitted for a layout. -/
def reflected (d : Dialect) (l : Layout) : Layout :=
  { l with params := l.params.map fun s => { s with kind := reflectedKind d s.kind } }

theorem forall₂_append_left {α β : Type} {R : α → β → Prop} {xs ys : List α} {zs : List β}
    (h : List.Forall₂ R (xs ++ ys) zs) :
    ∃ zs₁ zs₂, zs = zs₁ ++ zs₂ ∧ List.Forall₂ R xs zs₁ ∧ List.Forall₂ R ys zs₂ := by
  induction xs generalizing zs with
  | nil => exact ⟨[], zs, rfl, .nil, h⟩
  | cons x xs ih =>
    cases h with
    | cons hx h =>
      obtain ⟨zs₁, zs₂, rfl, h₁, h₂⟩ := ih h
      exact ⟨_ :: zs₁, zs₂, rfl, .cons hx h₁, h₂⟩

/-- The slots of a layout that are written out: their names can be used in a shader, and they are
numbered from 0 on. -/
structure Writable (l : Layout) : Prop where
  params : ∀ s ∈ l.params, isIdentifier s.name.toList = true ∧ s.kind.Plain
  params_index : l.params.map (·.index) = List.range l.params.length
  uniforms : Numbered l.uniforms

/-- What is drafted can be written out. -/
theorem draft_writable {names : List String} {body : List Char} {config : Config}
    {log log' : List LogLine} {draft : Draft}
    (h : Shader.draft names body config log = .ok draft log') : Writable draft.layout := by
  obtain ⟨hf, hn, hi, hk, text, -, hu, -⟩ := draft_eq_ok h
  refine ⟨fun s hs => ⟨?_, hk s hs⟩, hi, hu ▸ discoverUniforms_numbered text⟩
  exact isIdentifier_of_namesFault? hf s.name (hn ▸ List.mem_map_of_mem hs)

theorem map_eq_of_forall₂ {α β γ : Type} {R : α → β → Prop} {f : α → γ} {g : β → γ} {xs : List α}
    {ys : List β} (h : List.Forall₂ R xs ys) (hr : ∀ x y, R x y → g y = f x) :
    ys.map g = xs.map f := by
  induction h with
  | nil => rfl
  | cons hx _ ih => rw [List.map_cons, List.map_cons, hr _ _ hx, ih]

/-- A variable is bound at a place and makes a slot and an entry. -/
structure Makes {α : Type} (slot? : GlobalVar → Option α) (place : BindingPlace) (slot : α)
    (entry : Entry) (v : GlobalVar) : Prop where
  place : v.place = some place
  slot : slot? v = some slot
  entry : v.entryOf? = some entry

/-- Each line of a parameter is read as one variable, and any variable that it declares will do. -/
theorem Writable.makes_params {vars : List GlobalVar} (h : Writable l)
    (hv : List.Forall₂ (Declares d) (l.params.map d.paramBinding) vars) :
    List.Forall₂ (fun s => Makes GlobalVar.paramSlot? ⟨paramGroup, s.index⟩
      { s with kind := reflectedKind d s.kind } (paramEntry d s)) l.params vars := by
  refine ((List.forall₂_and_left _ _).2 ⟨h.params, List.forall₂_map_left_iff.1 hv⟩).imp ?_
  rintro s v ⟨⟨hn, hk⟩, hv⟩
  have ha := hv.alike (declares_paramBinding d hn) rfl
  exact ⟨ha.place.trans (place_paramVar d s), ha.param.trans (paramSlot?_paramVar d hk),
    ha.entry.trans (entryOf?_paramVar d s)⟩

theorem Writable.makes_uniforms {vars : List GlobalVar} (h : Writable l)
    (hv : List.Forall₂ (Declares d) (l.uniforms.map d.uniformBinding) vars) :
    List.Forall₂ (fun s => Makes GlobalVar.uniformSlot? ⟨uniformGroup, s.index⟩ s
      ⟨s.index, .uniform⟩) l.uniforms vars := by
  refine ((List.forall₂_and_left _ _).2
    ⟨h.uniforms.names, List.forall₂_map_left_iff.1 hv⟩).imp ?_
  rintro s v ⟨hn, hv⟩
  have ha := hv.alike (declares_uniformBinding d hn) rfl
  exact ⟨ha.place.trans (place_uniformVar d s), ha.uniform.trans (uniformSlot?_uniformVar d s),
    ha.entry.trans (entryOf?_uniformVar d s)⟩

/-- Variables are bound in a group in their order. -/
def InOrder (group : Nat) (vars : List GlobalVar) : Prop :=
  vars.map (·.place) = (List.range vars.length).map fun i => some ⟨group, i⟩

theorem inOrder_of_forall₂ {α : Type} {R : α → GlobalVar → Prop} {index : α → Nat} {group : Nat}
    {slots : List α} {vars : List GlobalVar} (h : List.Forall₂ R slots vars)
    (hr : ∀ s v, R s v → v.place = some ⟨group, index s⟩)
    (hi : slots.map index = List.range slots.length) : InOrder group vars := by
  unfold InOrder
  rw [map_eq_of_forall₂ h hr, ← h.length_eq, ← hi, List.map_map]
  rfl

variable {group : Nat} {vars : List GlobalVar}

theorem InOrder.place (h : InOrder group vars) {v : GlobalVar} (hv : v ∈ vars) :
    ∃ i, v.place = some ⟨group, i⟩ := by
  have hm : v.place ∈ vars.map (·.place) := List.mem_map_of_mem hv
  rw [h] at hm
  obtain ⟨i, -, hi⟩ := List.mem_map.1 hm
  exact ⟨i, hi.symm⟩

theorem InOrder.binding (h : InOrder group vars) :
    vars.map (·.binding) = List.range vars.length := by
  have hb : vars.map (·.binding) =
      (vars.map (·.place)).map fun p => (p.map BindingPlace.binding).getD 0 := by
    rw [List.map_map]
    rfl
  rw [hb, h, List.map_map]
  exact List.map_id _

theorem InOrder.filter (h : InOrder group vars) (g : Nat) :
    vars.filter (boundIn g) = if group = g then vars else [] := by
  split
  · rename_i hg
    refine List.filter_eq_self.2 fun v hv => ?_
    obtain ⟨i, hi⟩ := h.place hv
    rw [boundIn_of_place hi, decide_eq_true hg]
  · rename_i hg
    refine List.filter_eq_nil_iff.2 fun v hv => ?_
    obtain ⟨i, hi⟩ := h.place hv
    rw [boundIn_of_place hi, decide_eq_true_eq]
    exact hg

/-- Variables that are bound in their order are sorted by their bindings. -/
theorem InOrder.sorted (h : InOrder group vars) :
    (vars.mergeSort fun a b => decide (a.binding ≤ b.binding)) = vars := by
  refine List.mergeSort_of_pairwise ?_
  have hp : (vars.map (·.binding)).Pairwise (· ≤ ·) := h.binding ▸ List.pairwise_le_range
  simpa using List.pairwise_map.1 hp

/-- The two groups of a shader whose bound variables are those of one group and then those of the
other. -/
theorem bound_eq {ps us : List GlobalVar} (hv : m.vars.filter (·.place.isSome) = ps ++ us)
    (hp : InOrder paramGroup ps) (hu : InOrder uniformGroup us) :
    m.bound paramGroup = ps ∧ m.bound uniformGroup = us := by
  have hfilter : ∀ g, m.vars.filter (boundIn g) =
      ps.filter (boundIn g) ++ us.filter (boundIn g) := by
    intro g
    rw [← List.filter_append, ← hv, List.filter_filter]
    refine List.filter_congr fun v _ => ?_
    unfold boundIn
    rcases v.place with _ | p <;> simp
  unfold ShaderModule.bound
  constructor
  · rw [hfilter, hp.filter, hu.filter, if_pos rfl, if_neg (by decide), List.append_nil, hp.sorted]
  · rw [hfilter, hp.filter, hu.filter, if_neg (by decide), if_pos rfl, List.nil_append, hu.sorted]

theorem strayLines_eq_nil {ps us : List GlobalVar} (hv : m.vars.filter (·.place.isSome) = ps ++ us)
    (hp : InOrder paramGroup ps) (hu : InOrder uniformGroup us) :
    m.vars.flatMap GlobalVar.strayLines = [] := by
  refine List.flatMap_eq_nil_iff.2 fun v hm => ?_
  unfold GlobalVar.strayLines
  rcases hplace : v.place with _ | place
  · rfl
  · have hb : v ∈ ps ++ us := hv ▸ List.mem_filter.2 ⟨hm, by simp [hplace]⟩
    have hg : place.group = paramGroup ∨ place.group = uniformGroup := by
      rcases List.mem_append.1 hb with hb | hb
      · obtain ⟨i, hi⟩ := hp.place hb
        cases hplace.symm.trans hi
        exact .inl rfl
      · obtain ⟨i, hi⟩ := hu.place hb
        cases hplace.symm.trans hi
        exact .inr rfl
    simp only [if_pos hg]

/-- The lines of the slots stand at the front of the text of a shader, one after the other. -/
theorem emit_declarations (d : Dialect) (l : Layout) (parts : Parts) :
    ∃ rest, d.emit l parts =
      d.opening l.workgroupSize ++ String.join ((declarations d l).map (· ++ "\n")) ++ rest := by
  refine ⟨"\n" ++ d.builtinVariables ++
    String.join (parts.outside.map fun p => "\n" ++ String.ofList p ++ "\n") ++
    "\n" ++ String.ofList (d.bodyDefinition parts.body) ++ "\n" ++
    d.entryDefinition l.workgroupSize, ?_⟩
  unfold Dialect.emit declarations
  simp [String.append_assoc, Function.comp_def]

/-- A shader with the variables of a layout and one that is not bound. -/
def moduleOf (d : Dialect) (l : Layout) : ShaderModule where
  vars := l.params.map (paramVar d) ++ l.uniforms.map (uniformVar d) ++
    [⟨some "thread", .invocation, none, .vector 3 .u32⟩]
  entryPoints := [⟨Dialect.entryPoint, .compute, l.workgroupSize⟩]

/-- There is a shader that a front end may find for every layout that can be written out. -/
theorem describes_moduleOf (d : Dialect) (hl : Writable l) : Describes d l (moduleOf d l) := by
  have hbound : (moduleOf d l).vars.filter (·.place.isSome) =
      l.params.map (paramVar d) ++ l.uniforms.map (uniformVar d) := by
    unfold moduleOf
    rw [List.filter_append, List.filter_eq_self.2]
    · simp
    · intro v hv
      rcases List.mem_append.1 hv with hv | hv
      · obtain ⟨s, -, rfl⟩ := List.mem_map.1 hv
        rw [place_paramVar]
        rfl
      · obtain ⟨s, -, rfl⟩ := List.mem_map.1 hv
        rw [place_uniformVar]
        rfl
  constructor
  · rw [hbound, declarations]
    refine List.rel_append ?_ ?_
    · rw [List.forall₂_map_left_iff, List.forall₂_map_right_iff, List.forall₂_same]
      exact fun s hs => declares_paramBinding d (hl.params s hs).1
    · rw [List.forall₂_map_left_iff, List.forall₂_map_right_iff, List.forall₂_same]
      exact fun s hs => declares_uniformBinding d (hl.uniforms.names s hs)
  · simp [ShaderModule.main?, moduleOf]

/-- An emitted shader starts with the lines of its slots. A front end that reads these lines finds
in the shader what it was emitted for. -/
theorem emitted_shader_reflects {names : List String} {body : List Char} {config : Config}
    {log log' : List LogLine} {draft : Draft}
    (h : Shader.draft names body config log = .ok draft log')
    (hm : Describes draft.dialect draft.layout m) :
    (∃ rest, draft.source = draft.dialect.opening draft.layout.workgroupSize ++
      String.join ((declarations draft.dialect draft.layout).map (· ++ "\n")) ++ rest) ∧
      m.entries paramGroup = .ok (paramEntries draft.dialect draft.layout) ∧
      m.entries uniformGroup = .ok (uniformEntries draft.layout) ∧
      ∀ log, m.layout log = .ok (reflected draft.dialect draft.layout) log := by
  have hw := draft_writable h
  obtain ⟨-, -, -, -, -, parts, -, hsource⟩ := draft_eq_ok h
  obtain ⟨ps, us, hv, hps, hus⟩ := forall₂_append_left hm.vars
  have hps := hw.makes_params hps
  have hus := hw.makes_uniforms hus
  have hp : InOrder paramGroup ps := inOrder_of_forall₂ hps (fun _ _ h => h.place) hw.params_index
  have hu : InOrder uniformGroup us :=
    inOrder_of_forall₂ hus (fun _ _ h => h.place) hw.uniforms.index
  obtain ⟨hbp, hbu⟩ := bound_eq hv hp hu
  refine ⟨hsource ▸ emit_declarations _ _ parts, entries_eq_ok_iff.2 ?_, entries_eq_ok_iff.2 ?_,
    fun log => layout_eq_ok_iff.2 ⟨?_, ?_, ?_, hw.uniforms.index, hm.main, ?_⟩⟩
  · rw [hbp, map_eq_of_forall₂ hps fun _ _ h => h.entry, paramEntries, List.map_map]
    rfl
  · rw [hbu, map_eq_of_forall₂ hus fun _ _ h => h.entry, uniformEntries, List.map_map]
    rfl
  · rw [hbp, map_eq_of_forall₂ hps fun _ _ h => h.slot, reflected, List.map_map]
    rfl
  · rw [hbu, map_eq_of_forall₂ hus fun _ _ h => h.slot]
    rfl
  · simpa [reflected, Function.comp_def] using hw.params_index
  · rw [strayLines_eq_nil hv hp hu, List.append_nil]

section Sample

def mixedConfig (d : Dialect) : Config :=
  ⟨⟨8, 8, 1⟩, none,
    NameMap.ofList [("img", .tag "float[][]"), ("res", .detailed "texture" none (some "w"))], d⟩

def mixedBody : String := "float s = this.uniform.k.x; dst[0] = img[0, 0].r; res[0, 0] = s;"

def mixedLayout : Layout where
  params := [⟨"img", 0, .texture (.image .f32) .rgba32float .read⟩,
    ⟨"dst", 1, .buffer (.buffer .f32)⟩, ⟨"res", 2, .texture .texture .rgba8unorm .write⟩]
  uniforms := [⟨"k", .f32, 0⟩]
  workgroupSize := ⟨8, 8, 1⟩

theorem draft_mixed (d : Dialect) : ∃ draft log,
    Shader.draft ["img", "dst", "res"] mixedBody.toList (mixedConfig d) [] = .ok draft log ∧
      draft.dialect = d ∧ draft.layout = mixedLayout := by
  have h : (match Shader.draft ["img", "dst", "res"] mixedBody.toList (mixedConfig d) [] with
      | .ok draft _ => decide (draft.dialect = d ∧ draft.layout = mixedLayout)
      | .error .. => false) = true := by
    cases d <;> decide +kernel
  rcases hr : Shader.draft ["img", "dst", "res"] mixedBody.toList (mixedConfig d) [] with
    ⟨draft, log⟩ | ⟨_, _⟩ <;> rw [hr] at h
  · exact ⟨draft, log, rfl, of_decide_eq_true h⟩
  · cases h

/-- An image of floats that is only read comes back as one of bytes from WGSL and as it was from
GLSL. -/
theorem emitted_shader_reflects_mixed :
    (∃ draft log m,
      Shader.draft ["img", "dst", "res"] mixedBody.toList (mixedConfig .wgsl) [] = .ok draft log ∧
        Describes draft.dialect draft.layout m ∧
        m.entries paramGroup = .ok [⟨0, .texture .f32 false⟩, ⟨1, .storage false⟩,
          ⟨2, .storageTexture .rgba8unorm .write⟩] ∧
        m.entries uniformGroup = .ok [⟨0, .uniform⟩] ∧
        m.layout [] = .ok ⟨[⟨"img", 0, .texture .texture .rgba8unorm .read⟩,
          ⟨"dst", 1, .buffer (.buffer .f32)⟩, ⟨"res", 2, .texture .texture .rgba8unorm .write⟩],
          [⟨"k", .f32, 0⟩], ⟨8, 8, 1⟩⟩ []) ∧
    (∃ draft log m,
      Shader.draft ["img", "dst", "res"] mixedBody.toList (mixedConfig .glsl) [] = .ok draft log ∧
        Describes draft.dialect draft.layout m ∧
        m.entries paramGroup = .ok [⟨0, .storageTexture .rgba32float .read⟩, ⟨1, .storage false⟩,
          ⟨2, .storageTexture .rgba8unorm .write⟩] ∧
        m.entries uniformGroup = .ok [⟨0, .uniform⟩] ∧ m.layout [] = .ok mixedLayout []) := by
  have h : ∀ d, ∃ draft log m,
      Shader.draft ["img", "dst", "res"] mixedBody.toList (mixedConfig d) [] = .ok draft log ∧
        Describes draft.dialect draft.layout m ∧
        m.entries paramGroup = .ok (paramEntries d mixedLayout) ∧
        m.entries uniformGroup = .ok (uniformEntries mixedLayout) ∧
        m.layout [] = .ok (reflected d mixedLayout) [] := by
    intro d
    obtain ⟨draft, log, h, hd, hl⟩ := draft_mixed d
    have hm := describes_moduleOf draft.dialect (draft_writable h)
    obtain ⟨-, hp, hu, hr⟩ := emitted_shader_reflects h hm
    refine ⟨draft, log, _, h, hm, ?_, ?_, ?_⟩
    · rw [hp, hd, hl]
    · rw [hu, hl]
    · rw [hr, hd, hl]
  exact ⟨h .wgsl, h .glsl⟩

end Sample

end Modules

end Shader

end ComputeKernel
