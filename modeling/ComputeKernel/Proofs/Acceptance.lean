import ComputeKernel.Proofs.Reflection

/-!
# Shaders that have a layout

Which variables make slots is said here by relations, one constructor for each sort of variable
(`MakesParam`, `MakesUniform`), and the classifications find exactly these
(`paramSlot?_eq_some_iff`, `uniformSlot?_eq_some_iff`). Numbers that are sorted are 0, 1, 2 and so
on exactly if they are these numbers in some order, each of them once (`mergeSort_eq_range_iff`), so
a group of variables has slots if each variable makes one and the bindings are such numbers
(`exists_slots_iff`). None of this depends on the order of the variables (`bound_perm`,
`layout_of_perm`).
-/

namespace ComputeKernel.Shader

section Kinds

/-- The scalars that slots can have. -/
inductive SlotScalar : ScalarType → Scalar → Prop
  | u32 : SlotScalar .u32 .u32
  | i32 : SlotScalar .i32 .i32
  | f32 : SlotScalar .f32 .f32
  | f64 : SlotScalar .f64 .f64

/-- A type that ends in an array of a scalar: such an array, of any length or none, or a block whose
last member ends in one. -/
inductive EndsInArray (s : Scalar) : VarType → Prop
  | array {kind : ScalarType} {length : Option Nat} (hk : SlotScalar kind s) :
    EndsInArray s (.array (.scalar kind) length)
  | block {members : List (Option String × VarType)} {name : Option String} {type : VarType}
    (h : EndsInArray s type) : EndsInArray s (.struct (members ++ [(name, type)]))

/-- The formats of sampled images of floating point numbers, unsigned and signed integers. -/
inductive SampledAs : ScalarType → ImageFormat → Prop
  | f32 : SampledAs .f32 .rgba8unorm
  | f64 : SampledAs .f64 .rgba8unorm
  | u32 : SampledAs .u32 .rgba32uint
  | u64 : SampledAs .u64 .rgba32uint
  | i32 : SampledAs .i32 .rgba32sint
  | i64 : SampledAs .i64 .rgba32sint

/-- A variable that can be bound as a parameter, and the kind of its slot. -/
inductive MakesParam (v : GlobalVar) : SlotKind → Prop
  | buffer {access : StorageAccess} {s : Scalar} (hs : v.space = .storage access)
    (ht : EndsInArray s v.type) : MakesParam v (.buffer (.buffer s))
  | sampled {kind : ScalarType} {format : ImageFormat} (hs : v.space = .handle)
    (ht : v.type = .image .d2 false (.sampled kind false)) (hf : SampledAs kind format) :
    MakesParam v (.texture format.paramType format .read)
  | storage {format : ImageFormat} {access : StorageAccess} (hs : v.space = .handle)
    (ht : v.type = .image .d2 false (.storage (some format) access)) :
    MakesParam v (.texture format.paramType format access.mode)

/-- A variable that can be bound as a uniform, with the name of the block's member if there is one,
and the scalar of its slot. -/
inductive MakesUniform (v : GlobalVar) : Option String → Scalar → Prop
  | vector {kind : ScalarType} {s : Scalar} (hs : v.space = .uniform)
    (ht : v.type = .vector 4 kind) (hk : SlotScalar kind s) : MakesUniform v none s
  | block {name : Option String} {kind : ScalarType} {s : Scalar} (hs : v.space = .uniform)
    (ht : v.type = .struct [(name, .vector 4 kind)]) (hk : SlotScalar kind s) :
    MakesUniform v name s

variable {v : GlobalVar} {s : Scalar} {type : VarType}

theorem slot?_eq_some_iff {kind : ScalarType} : kind.slot? = some s ↔ SlotScalar kind s := by
  constructor
  · intro h
    cases kind <;> cases h <;> constructor
  · rintro ⟨⟩ <;> rfl

theorem sampledFormat?_eq_some_iff {kind : ScalarType} {format : ImageFormat} :
    sampledFormat? kind = some format ↔ SampledAs kind format := by
  constructor
  · intro h
    cases kind <;> cases h <;> constructor
  · rintro ⟨⟩ <;> rfl

theorem lastElement?_append (members : List (Option String × VarType)) (name : Option String) :
    arrayElement?.lastElement? (members ++ [(name, type)]) = arrayElement? type := by
  induction members with
  | nil => rfl
  | cons m members ih =>
    cases members with
    | nil => exact ih
    | cons m' members => exact ih

/-- The element that is found is that of the array in which the type ends. -/
theorem arrayElement?_eq_some_iff : arrayElement? type = some s ↔ EndsInArray s type := by
  constructor
  · induction type using arrayElement?.induct fun members =>
        arrayElement?.lastElement? members = some s →
          ∃ init name t, members = init ++ [(name, t)] ∧ EndsInArray s t with
    | case1 kind length => exact fun h => .array (slot?_eq_some_iff.1 h)
    | case2 members ih =>
      intro h
      obtain ⟨init, name, t, rfl, ht⟩ := ih h
      exact .block ht
    | case3 t ha hs =>
      intro h
      unfold arrayElement? at h
      split at h
      · exact (ha _ _ rfl).elim
      · exact (hs _ rfl).elim
      · cases h
    | case4 =>
      rename_i h
      cases h
    | case5 name t ih =>
      rename_i h
      exact ⟨[], name, t, rfl, ih h⟩
    | case6 head m r ih =>
      rename_i h
      obtain ⟨init, name, t, hm, ht⟩ := ih h
      exact ⟨head :: init, name, t, by rw [hm]; rfl, ht⟩
  · intro h
    induction h with
    | array hk => exact slot?_eq_some_iff.2 hk
    | block _ ih => exact (lastElement?_append _ _).trans ih

theorem paramKind?_eq_some_iff {kind : SlotKind} :
    paramKind? v.space v.type = some kind ↔ MakesParam v kind := by
  constructor
  · intro h
    unfold paramKind? at h
    split at h
    · rename_i access t hs
      obtain ⟨s, ht, rfl⟩ := Option.map_eq_some_iff.1 h
      exact .buffer hs (arrayElement?_eq_some_iff.1 ht)
    · rename_i cls hs ht
      unfold imageKind? at h
      split at h
      · obtain ⟨format, hf, rfl⟩ := Option.map_eq_some_iff.1 h
        exact .sampled hs ht (sampledFormat?_eq_some_iff.1 hf)
      · cases h
      · cases h
      · obtain ⟨format, rfl, rfl⟩ := Option.map_eq_some_iff.1 h
        exact .storage hs ht
    · cases h
  · intro h
    cases h with
    | buffer hs ht => rw [hs, paramKind?, arrayElement?_eq_some_iff.2 ht]; rfl
    | sampled hs ht hf =>
      rw [hs, ht, paramKind?, imageKind?, sampledFormat?_eq_some_iff.2 hf]
      rfl
    | storage hs ht => rw [hs, ht]; rfl

theorem quadScalar?_eq_some_iff :
    quadScalar? type = some s ↔ ∃ kind, type = .vector 4 kind ∧ SlotScalar kind s := by
  constructor
  · intro h
    unfold quadScalar? at h
    split at h
    · exact ⟨_, rfl, slot?_eq_some_iff.1 h⟩
    · cases h
  · rintro ⟨kind, rfl, hk⟩
    exact slot?_eq_some_iff.2 hk

theorem uniformKind?_eq_some_iff {name : Option String} :
    uniformKind? v.space v.type = some (name, s) ↔ MakesUniform v name s := by
  constructor
  · intro h
    unfold uniformKind? at h
    split at h
    · rename_i hs
      split at h
      · rename_i member t ht
        obtain ⟨s', hq, he⟩ := Option.map_eq_some_iff.1 h
        cases he
        obtain ⟨kind, rfl, hk⟩ := quadScalar?_eq_some_iff.1 hq
        exact .block hs ht hk
      · obtain ⟨s', hq, he⟩ := Option.map_eq_some_iff.1 h
        cases he
        obtain ⟨kind, ht, hk⟩ := quadScalar?_eq_some_iff.1 hq
        exact .vector hs ht hk
    · cases h
  · intro h
    cases h with
    | vector hs ht hk =>
      rw [hs, ht]
      exact congrArg (Option.map _) (quadScalar?_eq_some_iff.2 ⟨_, rfl, hk⟩)
    | block hs ht hk =>
      rw [hs, ht]
      exact congrArg (Option.map _) (quadScalar?_eq_some_iff.2 ⟨_, rfl, hk⟩)

theorem paramSlot?_eq_some_iff {slot : ParamSlot} : v.paramSlot? = some slot ↔
    ∃ kind, MakesParam v kind ∧ slot = ⟨v.name.getD "", v.binding, kind⟩ := by
  rw [GlobalVar.paramSlot?, Option.map_eq_some_iff]
  exact exists_congr fun kind => and_congr paramKind?_eq_some_iff eq_comm

theorem uniformSlot?_eq_some_iff {slot : UniformSlot} : v.uniformSlot? = some slot ↔
    ∃ name s, MakesUniform v name s ∧ slot = ⟨name.getD (v.name.getD ""), s, v.binding⟩ := by
  rw [GlobalVar.uniformSlot?, Option.map_eq_some_iff, Prod.exists]
  exact exists₂_congr fun name s => and_congr uniformKind?_eq_some_iff eq_comm

end Kinds

section Groups

/-- The numbers of the bindings of a group, each as often as it occurs. -/
def ShaderModule.bindings (m : ShaderModule) (group : Nat) : List Nat :=
  (m.vars.filter (boundIn group)).map GlobalVar.binding

variable {β : Type} {m m' : ShaderModule} {group : Nat} {v : GlobalVar}

theorem mergeSort_eq_range_iff {ns : List Nat} :
    (ns.mergeSort fun a b => decide (a ≤ b)) = List.range ns.length ↔
      ns.Perm (List.range ns.length) := by
  have hperm := List.mergeSort_perm ns fun a b => decide (a ≤ b)
  constructor
  · exact fun h => hperm.symm.trans (.of_eq h)
  · intro h
    exact List.Perm.eq_of_pairwise (fun _ _ _ _ => Nat.le_antisymm) (pairwise_mergeSort_key id ns)
      List.pairwise_le_range (hperm.trans h)

theorem map_binding_bound : (m.bound group).map GlobalVar.binding =
    (m.bindings group).mergeSort fun a b => decide (a ≤ b) :=
  List.map_mergeSort fun _ _ _ _ => rfl

theorem place_iff_boundIn {binding : Nat} :
    v.place = some ⟨group, binding⟩ ↔ boundIn group v = true ∧ v.binding = binding := by
  constructor
  · intro h
    exact ⟨by simp [boundIn, h], by simp [GlobalVar.binding, h]⟩
  · rintro ⟨h, rfl⟩
    exact place_of_boundIn h

theorem mem_bound_iff : v ∈ m.bound group ↔ v ∈ m.vars ∧ boundIn group v = true := by
  rw [ShaderModule.bound, List.mem_mergeSort, List.mem_filter]

/-- Variables in the order of their bindings do not depend on the order in which they are declared,
if no two of them have the same binding. -/
theorem bound_perm (h : m'.vars.Perm m.vars) (hd : (m.bindings group).Nodup) :
    m'.bound group = m.bound group := by
  have hd : ((m.bound group).map GlobalVar.binding).Nodup := by
    rw [map_binding_bound]
    exact (List.mergeSort_perm _ _).nodup_iff.2 hd
  refine bound_eq_of_perm m' group ((List.mergeSort_perm _ _).trans (h.symm.filter _)) ?_
  exact (pairwise_mergeSort_key _ _).imp₂ (fun _ _ => Nat.lt_of_le_of_ne) (List.pairwise_map.1 hd)

section Slots

variable {f : GlobalVar → Option β} {index : β → Nat} {ss : List β}

theorem map_index_eq (hf : ∀ v s, f v = some s → index s = v.binding) {vs : List GlobalVar}
    (h : vs.map f = ss.map some) : ss.map index = vs.map GlobalVar.binding := by
  induction vs generalizing ss with
  | nil =>
    cases ss with
    | nil => rfl
    | cons s ss => cases h
  | cons v vs ih =>
    obtain ⟨s, ss, rfl, hs, hss⟩ := List.map_eq_cons_iff.1 h.symm
    rw [List.map_cons, List.map_cons, hf v s hs.symm, ih hss.symm]

theorem length_slots (hss : (m.bound group).map f = ss.map some) :
    ss.length = (m.bindings group).length := by
  have hl := congrArg List.length hss
  rw [List.length_map, List.length_map, ShaderModule.bound, List.length_mergeSort] at hl
  rw [← hl, ShaderModule.bindings, List.length_map]

/-- The slots of a group can be read off its variables, and they are numbered by their positions, if
each variable makes one and the bindings are 0, 1, 2 and so on, each of them once. -/
theorem exists_slots_iff (m : ShaderModule) (group : Nat)
    (hf : ∀ v s, f v = some s → index s = v.binding) :
    (∃ ss : List β, (m.bound group).map f = ss.map some ∧
        ss.map index = List.range ss.length) ↔
      (∀ v ∈ m.vars, boundIn group v = true → ∃ s, f v = some s) ∧
        (m.bindings group).Perm (List.range (m.bindings group).length) := by
  rw [← mergeSort_eq_range_iff, ← map_binding_bound]
  constructor
  · rintro ⟨ss, hss, hi⟩
    refine ⟨fun v hv hb => ?_, ?_⟩
    · have hmem : f v ∈ ss.map some := hss ▸ List.mem_map_of_mem (mem_bound_iff.2 ⟨hv, hb⟩)
      obtain ⟨s, -, hs⟩ := List.mem_map.1 hmem
      exact ⟨s, hs.symm⟩
    · rw [← map_index_eq hf hss, hi, length_slots hss]
  · rintro ⟨hmakes, hdense⟩
    have hss := map_eq_map_some fun v (hv : v ∈ m.bound group) =>
      hmakes v (mem_bound_iff.1 hv).1 (mem_bound_iff.1 hv).2
    exact ⟨_, hss, by rw [map_index_eq hf hss, hdense, length_slots hss]⟩

/-- The slot of a variable stands at the position that its binding says. -/
theorem slot_at_binding (hf : ∀ v s, f v = some s → index s = v.binding)
    (hss : (m.bound group).map f = ss.map some) (hi : ss.map index = List.range ss.length)
    (hv : v ∈ m.vars) (hb : boundIn group v = true) :
    ∃ s, f v = some s ∧ ss[v.binding]? = some s := by
  obtain ⟨i, hiv⟩ := List.mem_iff_getElem?.1 (mem_bound_iff.2 ⟨hv, hb⟩)
  have hat := congrArg (·[i]?) hss
  simp only [List.getElem?_map, hiv, Option.map_some] at hat
  obtain ⟨s, hs, he⟩ := Option.map_eq_some_iff.1 hat.symm
  have hpos := index_eq hi hs
  rw [hf v s he.symm] at hpos
  exact ⟨s, he.symm, by rw [hpos, hs]⟩

end Slots

end Groups

section Modules

variable {m m' : ShaderModule} {l : Layout} {log log' : List LogLine}

/-- What a shader has to be like in order to have a layout. -/
structure Acceptable (m : ShaderModule) : Prop where
  params : ∀ v ∈ m.vars, ∀ b, v.place = some ⟨paramGroup, b⟩ → ∃ kind, MakesParam v kind
  uniforms : ∀ v ∈ m.vars, ∀ b, v.place = some ⟨uniformGroup, b⟩ → ∃ name s, MakesUniform v name s
  paramBindings : (m.bindings paramGroup).Perm (List.range (m.bindings paramGroup).length)
  uniformBindings : (m.bindings uniformGroup).Perm (List.range (m.bindings uniformGroup).length)
  entry : ∃ e ∈ m.entryPoints, e.name = "main" ∧ e.stage = .compute

/-- A layout has one slot for each variable of the two groups of a shader, at the position of its
binding, and the workgroups of the shader. -/
structure LaysOut (m : ShaderModule) (l : Layout) : Prop where
  params_length : l.params.length = (m.bindings paramGroup).length
  params : ∀ v ∈ m.vars, ∀ b, v.place = some ⟨paramGroup, b⟩ →
    ∃ kind, MakesParam v kind ∧ l.params[b]? = some ⟨v.name.getD "", b, kind⟩
  uniforms_length : l.uniforms.length = (m.bindings uniformGroup).length
  uniforms : ∀ v ∈ m.vars, ∀ b, v.place = some ⟨uniformGroup, b⟩ →
    ∃ name s, MakesUniform v name s ∧ l.uniforms[b]? = some ⟨name.getD (v.name.getD ""), s, b⟩
  entry : ∃ e ∈ m.entryPoints, e.name = "main" ∧ e.stage = .compute ∧
    e.workgroupSize = l.workgroupSize

theorem index_paramSlot? (v : GlobalVar) (s : ParamSlot) (h : v.paramSlot? = some s) :
    s.index = v.binding := by
  obtain ⟨_, -, rfl⟩ := paramSlot?_eq_some_iff.1 h
  rfl

theorem index_uniformSlot? (v : GlobalVar) (s : UniformSlot) (h : v.uniformSlot? = some s) :
    s.index = v.binding := by
  obtain ⟨_, _, -, rfl⟩ := uniformSlot?_eq_some_iff.1 h
  rfl

theorem entry_of_main? {e : EntryPoint} (h : m.main? = some e) :
    e ∈ m.entryPoints ∧ e.name = "main" ∧ e.stage = .compute := by
  refine ⟨List.mem_of_find?_eq_some h, ?_⟩
  simpa [Dialect.entryPoint] using List.find?_some h

theorem main?_of_entry {e : EntryPoint} (he : e ∈ m.entryPoints) (hn : e.name = "main")
    (hs : e.stage = .compute) : ∃ e', m.main? = some e' := by
  rw [← Option.isSome_iff_exists, ShaderModule.main?, List.find?_isSome]
  exact ⟨e, he, by simp [hn, hs, Dialect.entryPoint]⟩

/-- A shader has a layout exactly if it is acceptable. -/
theorem exists_layout_iff : (∃ l log', m.layout log = .ok l log') ↔ Acceptable m := by
  have hparams := exists_slots_iff m paramGroup index_paramSlot?
  have huniforms := exists_slots_iff m uniformGroup index_uniformSlot?
  constructor
  · rintro ⟨l, log', h⟩
    obtain ⟨hp, hu, hpi, hui, he, -⟩ := layout_eq_ok_iff.1 h
    obtain ⟨hpm, hpd⟩ := hparams.1 ⟨_, hp, hpi⟩
    obtain ⟨hum, hud⟩ := huniforms.1 ⟨_, hu, hui⟩
    obtain ⟨e, he, -⟩ := Option.map_eq_some_iff.1 he
    refine ⟨fun v hv b hb => ?_, fun v hv b hb => ?_, hpd, hud, e, entry_of_main? he⟩
    · obtain ⟨s, hs⟩ := hpm v hv (place_iff_boundIn.1 hb).1
      obtain ⟨kind, hk, -⟩ := paramSlot?_eq_some_iff.1 hs
      exact ⟨kind, hk⟩
    · obtain ⟨s, hs⟩ := hum v hv (place_iff_boundIn.1 hb).1
      obtain ⟨name, s, hk, -⟩ := uniformSlot?_eq_some_iff.1 hs
      exact ⟨name, s, hk⟩
  · intro h
    obtain ⟨ps, hps, hpi⟩ := hparams.2 ⟨fun v hv hb => by
      obtain ⟨kind, hk⟩ := h.params v hv _ (place_of_boundIn hb)
      exact ⟨_, paramSlot?_eq_some_iff.2 ⟨kind, hk, rfl⟩⟩, h.paramBindings⟩
    obtain ⟨us, hus, hui⟩ := huniforms.2 ⟨fun v hv hb => by
      obtain ⟨name, s, hk⟩ := h.uniforms v hv _ (place_of_boundIn hb)
      exact ⟨_, uniformSlot?_eq_some_iff.2 ⟨name, s, hk, rfl⟩⟩, h.uniformBindings⟩
    obtain ⟨e, he, hn, hs⟩ := h.entry
    obtain ⟨e', he'⟩ := main?_of_entry he hn hs
    exact ⟨⟨ps, us, e'.workgroupSize⟩, _,
      layout_eq_ok_iff.2 ⟨hps, hus, hpi, hui, by rw [he']; rfl, rfl⟩⟩

theorem laysOut_of_layout (h : m.layout log = .ok l log') : LaysOut m l := by
  obtain ⟨hp, hu, hpi, hui, he, -⟩ := layout_eq_ok_iff.1 h
  obtain ⟨e, he, hw⟩ := Option.map_eq_some_iff.1 he
  obtain ⟨hmem, hname, hstage⟩ := entry_of_main? he
  refine ⟨length_slots hp, fun v hv b hb => ?_, length_slots hu, fun v hv b hb => ?_,
    e, hmem, hname, hstage, hw⟩
  · obtain ⟨hbound, rfl⟩ := place_iff_boundIn.1 hb
    obtain ⟨slot, hs, hat⟩ := slot_at_binding index_paramSlot? hp hpi hv hbound
    obtain ⟨kind, hk, rfl⟩ := paramSlot?_eq_some_iff.1 hs
    exact ⟨kind, hk, hat⟩
  · obtain ⟨hbound, rfl⟩ := place_iff_boundIn.1 hb
    obtain ⟨slot, hs, hat⟩ := slot_at_binding index_uniformSlot? hu hui hv hbound
    obtain ⟨name, s, hk, rfl⟩ := uniformSlot?_eq_some_iff.1 hs
    exact ⟨name, s, hk, hat⟩

/-- The order in which variables are declared does not matter for a layout. -/
theorem layout_of_perm (hvars : m'.vars.Perm m.vars) (hentry : m'.entryPoints = m.entryPoints)
    (h : m.layout log = .ok l log') : ∃ log'', m'.layout log = .ok l log'' := by
  have ha := exists_layout_iff.1 ⟨l, log', h⟩
  have hp : m'.bound paramGroup = m.bound paramGroup :=
    bound_perm hvars (ha.paramBindings.nodup_iff.2 List.nodup_range)
  have hu : m'.bound uniformGroup = m.bound uniformGroup :=
    bound_perm hvars (ha.uniformBindings.nodup_iff.2 List.nodup_range)
  have hm : m'.main? = m.main? := by rw [ShaderModule.main?, hentry, ShaderModule.main?]
  obtain ⟨h₁, h₂, h₃, h₄, h₅, -⟩ := layout_eq_ok_iff.1 h
  exact ⟨_, layout_eq_ok_iff.2 ⟨hp ▸ h₁, hu ▸ h₂, h₃, h₄, hm ▸ h₅, rfl⟩⟩

/-- A shader has a layout exactly if each variable of the first group can be bound as a parameter
and each one of the second group as a uniform, the bindings of either group are 0, 1, 2 and so on,
each of them once, and there is an entry point. The layout has one slot for each of these variables,
at the position of its binding. So the order of the variables matters neither for whether there is a
layout nor for what it is. -/
theorem layout_accepts (m : ShaderModule) (log : List LogLine) :
    ((∃ l log', m.layout log = .ok l log') ↔ Acceptable m) ∧
      (∀ l log', m.layout log = .ok l log' → LaysOut m l) ∧
      ∀ m' : ShaderModule, m'.vars.Perm m.vars → m'.entryPoints = m.entryPoints →
        ∀ l, (∃ log', m'.layout log = .ok l log') ↔ ∃ log', m.layout log = .ok l log' := by
  refine ⟨exists_layout_iff, fun l log' => laysOut_of_layout, fun m' hvars hentry l => ⟨?_, ?_⟩⟩
  · rintro ⟨log', h⟩
    exact layout_of_perm hvars.symm hentry.symm h
  · rintro ⟨log', h⟩
    exact layout_of_perm hvars hentry h

/-- A block that ends in an array, an image declared after it that is bound before it, a uniform in
a block, a variable of another group and one that is not bound. -/
def shuffledModule : ShaderModule where
  vars := [
    ⟨some "cells", .storage ⟨true, true⟩, some ⟨0, 1⟩,
      .struct [(some "count", .scalar .u32), (some "data", .array (.scalar .f64) none)]⟩,
    ⟨some "stray", .uniform, some ⟨3, 7⟩, .scalar .bool⟩,
    ⟨some "block", .uniform, some ⟨1, 0⟩, .struct [(some "scale", .vector 4 .i32)]⟩,
    ⟨some "scratch", .workgroup, none, .array (.scalar .bool) (some 4)⟩,
    ⟨some "picture", .handle, some ⟨0, 0⟩,
      .image .d2 false (.storage (some .r32uint) ⟨false, true⟩)⟩]
  entryPoints := [⟨"main", .vertex, ⟨0, 0, 0⟩⟩, ⟨"main", .compute, ⟨8, 8, 1⟩⟩]

theorem layout_accepts_shuffled :
    let l : Layout := ⟨[⟨"picture", 0, .texture (.image .u32) .r32uint .write⟩,
      ⟨"cells", 1, .buffer (.buffer .f64)⟩], [⟨"scale", .i32, 0⟩], ⟨8, 8, 1⟩⟩
    let m' : ShaderModule := { shuffledModule with vars := shuffledModule.vars.reverse }
    (∃ log', shuffledModule.layout [] = .ok l log') ∧ Acceptable shuffledModule ∧
      LaysOut shuffledModule l ∧ ∃ log', m'.layout [] = .ok l log' := by
  intro l m'
  let log' : List LogLine := [⟨.warn, .reflection, "ignoring binding group 3 in literal kernel"⟩]
  have h : shuffledModule.layout [] = .ok l log' := by
    rw [layout_eq_ok_iff,
      bound_eq_of_perm shuffledModule paramGroup (List.reverse_perm _) (by decide),
      bound_eq_of_perm shuffledModule uniformGroup (.refl _) (by decide)]
    decide +kernel
  obtain ⟨haccepts, hlays, hperm⟩ := layout_accepts shuffledModule []
  exact ⟨⟨log', h⟩, haccepts.1 ⟨l, log', h⟩, hlays l log' h,
    (hperm m' (List.reverse_perm _) rfl l).2 ⟨log', h⟩⟩

end Modules

end ComputeKernel.Shader
