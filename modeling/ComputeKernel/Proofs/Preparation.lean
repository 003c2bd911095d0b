import ComputeKernel.Proofs.Turn

/-!
# A run before its bind groups

Before a run looks at its bind groups it makes its pipeline, binds arguments to slots and gives
values to uniforms. The work on uniforms is a sequence of the steps of `UniformStep`
(`setUniforms_steps`, `fillUniforms_steps`). What is kept by the making of a pipeline, by each step
of the binding of an argument and by each step of the work on uniforms is kept by all of this
together, wherever it fails (`prepare_keeps`). A run that gets through has a pipeline, and every
slot and every uniform is occupied (`prepare_ok`).
-/

namespace ComputeKernel

open Device Relation RunM

namespace Kernel

section Uniforms

/-- What the work on uniforms does, one thing at a time. -/
inductive UniformStep : Running → Running → Prop
  /-- A resource is made, which the device counts as a failure, so that nothing refers to it. -/
  | lost {r : Running} {x : Resource} {d : Device} (h : Creates r.device x d) :
    UniformStep r { r with device := d }
  /-- A buffer of the right size is made for a uniform that has none. -/
  | fill {r : Running} {i : Nat} {slot : UniformSlot} {b : Buffer} {d : Device}
    (hi : i < r.kernel.uniformBuffers.length) (hn : r.kernel.uniformBuffer? i = none)
    (hs : r.kernel.program.layout.uniforms[i]? = some slot) (hb : b.size = slot.byteSize)
    (h : Creates r.device (.buffer b) d) :
    UniformStep r { r with
      device := d
      kernel := { r.kernel with uniformBuffers := r.kernel.uniformBuffers.set i (some b) } }
  /-- The buffer of a uniform is written to. -/
  | write {r : Running} {i : Nat} {b : Buffer} {bytes : List UInt8}
    (hb : r.kernel.uniformBuffer? i = some b) (hl : bytes.length ≤ b.size) :
    UniformStep r { r with device := r.device.attempted (·.writeBuffer b.number (aligned bytes)) }
  /-- A line is added to the log. -/
  | note {r : Running} (line : LogLine) : UniformStep r { r with log := r.log ++ [line] }

variable {r r' : Running}

theorem uniform?_getElem {k : Kernel} {name : String} {i : Nat} {slot : UniformSlot}
    (h : k.uniform? name = .ok (i, slot)) : k.program.layout.uniforms[i]? = some slot := by
  unfold uniform? at h
  split at h
  · rename_i slot' i' hf
    simp only [Except.ok.injEq, Prod.mk.injEq] at h
    obtain ⟨rfl, rfl⟩ := h
    exact List.mk_mem_zipIdx_iff_getElem?.1 (List.mem_of_find?_eq_some hf)
  · simp at h

theorem alignedSize_byteSize (slot : UniformSlot) : alignedSize slot.byteSize = slot.byteSize := by
  unfold UniformSlot.byteSize
  cases slot.kind <;> rfl

/-- The buffer of a uniform is found or made, or the device fails. -/
theorem ensureUniform_steps {i : Nat} {slot : UniformSlot}
    (hl : r.kernel.uniformBuffers.length = r.kernel.program.layout.uniforms.length)
    (hs : r.kernel.program.layout.uniforms[i]? = some slot) :
    (∃ f r', ensureUniform i slot r = .error f r' ∧ Fault f ∧ ReflTransGen UniformStep r r') ∨
      ∃ b r', ensureUniform i slot r = .ok b r' ∧ ReflTransGen UniformStep r r' ∧
        r'.kernel.uniformBuffer? i = some b := by
  have hi : i < r.kernel.uniformBuffers.length := hl ▸ (List.getElem?_eq_some_iff.1 hs).1
  unfold ensureUniform
  rw [get_bind]
  rcases hb : r.kernel.uniformBuffer? i with _ | b
  · rcases allocateBuffer_cases slot.byteSize r.device with ⟨f, hf, h⟩ | ⟨f, hf, h⟩ | ⟨-, h⟩
    · exact .inl ⟨f, _, bind_of_error (onDevice_of_error h), hf, .refl⟩
    · exact .inl ⟨f, _, bind_of_error (onDevice_of_error h), hf, .single (.lost (.buffer _))⟩
    · refine .inr ⟨_, _, bind_of_ok (onDevice_of_ok h),
        .single (.fill hi hb hs (alignedSize_byteSize slot) (.buffer _)), ?_⟩
      simp [uniformBuffer?, hi]
  · exact .inr ⟨b, r, rfl, .refl, hb⟩

/-- All that the search for the buffer of a uniform can do. -/
theorem ensureUniform_cases (i : Nat) (slot : UniformSlot) (r : Running) :
    (∃ b, r.kernel.uniformBuffer? i = some b ∧ ensureUniform i slot r = .ok b r) ∨
      r.kernel.uniformBuffer? i = none ∧
        ((∃ f, ensureUniform i slot r = .error f r) ∨
          (∃ f, ensureUniform i slot r =
            .error f { r with device := r.device.withBuffer slot.byteSize }) ∨
          ensureUniform i slot r = .ok ⟨r.device.buffers.length, slot.byteSize⟩ { r with
            device := r.device.withBuffer slot.byteSize
            kernel := { r.kernel with
              uniformBuffers := r.kernel.uniformBuffers.set i
                (some ⟨r.device.buffers.length, slot.byteSize⟩) } }) := by
  unfold ensureUniform
  rw [get_bind]
  rcases hb : r.kernel.uniformBuffer? i with _ | b
  · refine .inr ⟨rfl, ?_⟩
    rcases allocateBuffer_cases slot.byteSize r.device with ⟨f, -, h⟩ | ⟨f, -, h⟩ | ⟨-, h⟩
    · exact .inl ⟨f, bind_of_error (onDevice_of_error h)⟩
    · rw [alignedSize_byteSize] at h
      exact .inr (.inl ⟨f, bind_of_error (onDevice_of_error h)⟩)
    · rw [alignedSize_byteSize] at h
      exact .inr (.inr (bind_of_ok (onDevice_of_ok h)))
  · exact .inl ⟨b, rfl, rfl⟩

/-- Values are refused, or there is no buffer for them, or they are sent to it. -/
theorem setUniform_cases (name : String) (values : List Binary64) (r : Running) :
    (∃ f, setUniform name values r = .error (.usage f) r) ∨
      ∃ i slot, r.kernel.uniform? name = .ok (i, slot) ∧ values.length ≤ 4 ∧
        ((∃ f r', ensureUniform i slot r = .error f r' ∧ setUniform name values r = .error f r') ∨
          ∃ b r', ensureUniform i slot r = .ok b r' ∧ setUniform name values r =
            onDevice (uploadBuffer b (uniformData slot.kind values).toBytes) r') := by
  unfold setUniform
  rw [get_bind]
  rcases hu : r.kernel.uniform? name with f | ⟨i, slot⟩
  · exact .inl ⟨f, rfl⟩
  rw [bind_of_ok (show used (.ok (i, slot)) r = .ok (i, slot) r from rfl)]
  by_cases hv : 4 < values.length
  · simp only [if_pos hv]
    exact .inl ⟨_, rfl⟩
  simp only [if_neg hv]
  refine .inr ⟨i, slot, rfl, Nat.le_of_not_lt hv, ?_⟩
  rcases he : ensureUniform i slot r with ⟨b, r'⟩ | ⟨f, r'⟩
  · exact .inr ⟨b, r', rfl, bind_of_ok he⟩
  · exact .inl ⟨f, r', rfl, bind_of_error he⟩

theorem setUniform_steps (name : String) (values : List Binary64)
    (hs : r.kernel.uniformBuffers.length = r.kernel.program.layout.uniforms.length) :
    ReflTransGen UniformStep r (endState (setUniform name values r)) := by
  unfold setUniform
  rw [get_bind]
  rcases hu : r.kernel.uniform? name with f | ⟨i, slot⟩
  · exact .refl
  · rw [bind_of_ok (show used (.ok (i, slot)) r = .ok (i, slot) r from rfl)]
    by_cases hv : 4 < values.length
    · simp only [if_pos hv]
      exact .refl
    · simp only [if_neg hv]
      rcases ensureUniform_steps hs (uniform?_getElem hu) with
        ⟨f, r', h, -, hr⟩ | ⟨b, r', h, hr, hb⟩
      · rw [bind_of_error h]
        exact hr
      · rw [bind_of_ok h, endState_onDevice]
        rcases uploadBuffer_cases b (uniformData slot.kind values).toBytes r'.device with
          ⟨-, hd⟩ | ⟨-, hd⟩ | ⟨-, hl, hd | ⟨f, -, hd⟩⟩ <;> rw [hd]
        · exact hr
        · exact hr
        · exact hr.tail (.write hb hl)
        · exact hr.tail (.write hb hl)

end Uniforms

section Preparation

/-- Whether an event makes a bind group or uses one to dispatch. -/
def Event.usesGroups : Event → Bool
  | .createBindGroup .. | .dispatch .. => true
  | _ => false

/-- What the part of a run before its bind groups leaves alone. Buffers of uniforms stay once they
are there, and new ones are of the right size, a pipeline that is there is that of the program, and
no bind group is made or used. -/
structure Prepares (r r' : Running) : Prop where
  program : r'.kernel.program = r.kernel.program
  slots : r'.kernel.slots.length = r.kernel.slots.length
  uniformBuffers : r'.kernel.uniformBuffers.length = r.kernel.uniformBuffers.length
  uniforms : ∀ i b, r.kernel.uniformBuffer? i = some b → r'.kernel.uniformBuffer? i = some b
  room : ∀ i b, r'.kernel.uniformBuffer? i = some b → r.kernel.uniformBuffer? i = some b ∨
    ∃ slot, r.kernel.program.layout.uniforms[i]? = some slot ∧ b.size = slot.byteSize
  pipeline : r'.kernel.pipeline = r.kernel.pipeline ∨ r.kernel.pipeline = none ∧
    ∃ p, groupLayouts r.kernel.program = .ok p ∧ r'.kernel.pipeline = some p
  paramGroup : r'.kernel.paramGroup = r.kernel.paramGroup
  uniformGroup : r'.kernel.uniformGroup = r.kernel.uniformGroup
  builds : r'.kernel.builds = r.kernel.builds
  events : ∃ es, r'.device.events = r.device.events ++ es ∧ ∀ e ∈ es, Event.usesGroups e = false

theorem Prepares.refl (r : Running) : Prepares r r where
  program := rfl
  slots := rfl
  uniformBuffers := rfl
  uniforms _ _ h := h
  room _ _ h := .inl h
  pipeline := .inl rfl
  paramGroup := rfl
  uniformGroup := rfl
  builds := rfl
  events := ⟨[], by simp, by simp⟩

theorem Prepares.trans {r₁ r₂ r₃ : Running} (h : Prepares r₁ r₂) (h' : Prepares r₂ r₃) :
    Prepares r₁ r₃ where
  program := h'.program.trans h.program
  slots := h'.slots.trans h.slots
  uniformBuffers := h'.uniformBuffers.trans h.uniformBuffers
  uniforms i b hb := h'.uniforms i b (h.uniforms i b hb)
  room i b hb := by
    rcases h'.room i b hb with hb | hb
    · exact h.room i b hb
    · exact .inr (h.program ▸ hb)
  pipeline := by
    rcases h.pipeline with hp | ⟨hn, p, hl, hp⟩ <;>
      rcases h'.pipeline with hp' | ⟨hn', p', hl', hp'⟩
    · exact .inl (hp'.trans hp)
    · exact .inr ⟨hp ▸ hn', p', h.program ▸ hl', hp'⟩
    · exact .inr ⟨hn, p, hl, hp'.trans hp⟩
    · exact absurd (hn'.symm.trans hp) (by simp)
  paramGroup := h'.paramGroup.trans h.paramGroup
  uniformGroup := h'.uniformGroup.trans h.uniformGroup
  builds := h'.builds.trans h.builds
  events := by
    obtain ⟨es, he, hn⟩ := h.events
    obtain ⟨es', he', hn'⟩ := h'.events
    refine ⟨es ++ es', by rw [he', he, List.append_assoc], ?_⟩
    intro e hm
    rcases List.mem_append.1 hm with hm | hm
    · exact hn e hm
    · exact hn' e hm

/-- Work on the device prepares a run if it makes or uses no bind group. -/
theorem prepares_device {r : Running} {d : Device} {log : List LogLine} (es : List Event)
    (he : d.events = r.device.events ++ es) (hn : ∀ e ∈ es, Event.usesGroups e = false) :
    Prepares r { r with device := d, log := log } where
  program := rfl
  slots := rfl
  uniformBuffers := rfl
  uniforms _ _ h := h
  room _ _ h := .inl h
  pipeline := .inl rfl
  paramGroup := rfl
  uniformGroup := rfl
  builds := rfl
  events := ⟨es, he, hn⟩

/-- A change of what is in the slots prepares a run. -/
theorem prepares_slots {r : Running} {slots : List (Option Bound)}
    (hl : slots.length = r.kernel.slots.length) :
    Prepares r { r with kernel := { r.kernel with slots := slots } } where
  program := rfl
  slots := hl
  uniformBuffers := rfl
  uniforms _ _ h := h
  room _ _ h := .inl h
  pipeline := .inl rfl
  paramGroup := rfl
  uniformGroup := rfl
  builds := rfl
  events := ⟨[], by simp, by simp⟩

theorem prepares_creates {r : Running} {x : Resource} {d : Device} (h : Creates r.device x d) :
    Prepares r { r with device := d } := by
  obtain ⟨e, he, hc⟩ := h.events
  refine prepares_device _ he ?_
  intro e' hm
  rw [List.mem_singleton.1 hm]
  cases e <;> simp_all [Event.created?, Event.usesGroups]

theorem prepares_writes {r : Running} {id : ResourceId} {d : Device}
    (h : Writes r.device id d) : Prepares r { r with device := d } := by
  obtain ⟨e, he, hw, -⟩ := h.events
  refine prepares_device _ he ?_
  intro e' hm
  rw [List.mem_singleton.1 hm]
  cases e <;> simp_all [Event.isWrite, Event.usesGroups]

theorem prepares_replaced (t : Turn) (new : Bound) (r : Running) :
    Prepares r (replaced t new r) := by
  have hs : Prepares r (rebound t new r) := prepares_slots (by simp)
  rcases replaced_cases t new r with h | ⟨old, -, -, -, h⟩ <;> rw [h]
  · exact hs
  · refine hs.trans (prepares_device [.destroy old.resource.id] rfl ?_)
    simp [Event.usesGroups]

theorem TurnStep.prepares {t : Turn} {arg : Argument Resource} {r r' : Running}
    (h : TurnStep t arg r r') : Prepares r r' := by
  cases h with
  | lost h => exact prepares_creates h
  | fill _ h => exact (prepares_creates h).trans (prepares_replaced _ _ _)
  | write _ h => exact prepares_writes h
  | adopt _ => exact prepares_replaced _ _ _

theorem UniformStep.prepares {r r' : Running} (h : UniformStep r r') : Prepares r r' := by
  cases h with
  | lost h => exact prepares_creates h
  | @fill i slot b d hi hn hs hsize h =>
    refine (prepares_creates h).trans ?_
    refine ⟨rfl, rfl, by simp, ?_, ?_, .inl rfl, rfl, rfl, rfl, [], by simp, by simp⟩
    · intro j b' hb
      by_cases hj : i = j
      · subst hj
        exact absurd (hn.symm.trans hb) (by simp)
      · simpa [uniformBuffer?, List.getElem?_set_ne hj] using hb
    · intro j b' hb
      by_cases hj : i = j
      · subst hj
        simp only [uniformBuffer?, List.getElem?_set_self hi, Option.join_some,
          Option.some.injEq] at hb
        exact .inr ⟨slot, hs, hb ▸ hsize⟩
      · exact .inl (by simpa [uniformBuffer?, List.getElem?_set_ne hj] using hb)
  | write _ _ => exact prepares_writes (.buffer _ _)
  | note line => exact prepares_device [] (by simp) (by simp)

theorem prepares_of_steps {r r' : Running} (h : ReflTransGen UniformStep r r') :
    Prepares r r' :=
  kept_of_steps (fun h hr => hr.trans h.prepares) h (.refl r)

theorem setUniforms_steps (values : List (String × List Binary64)) {r : Running}
    (hs : r.kernel.uniformBuffers.length = r.kernel.program.layout.uniforms.length) :
    ReflTransGen UniformStep r (endState (setUniforms values r)) := by
  induction values generalizing r with
  | nil => exact .refl
  | cons v values ih =>
    refine endState_bind (P := ReflTransGen UniformStep r) (setUniform_steps v.1 v.2 hs) ?_
    intro _ r' _ hr
    have hp := prepares_of_steps hr
    exact hr.trans (ih (by rw [hp.uniformBuffers, hp.program]; exact hs))

/-- After the buffers of uniforms were made without a failure, the uniforms have buffers. -/
theorem fillUniforms_steps (slots : List UniformSlot) {i : Nat} {r : Running}
    (hl : r.kernel.uniformBuffers.length = r.kernel.program.layout.uniforms.length)
    (hs : r.kernel.program.layout.uniforms.drop i = slots) :
    (∃ f r', fillUniforms i slots r = .error f r' ∧ Fault f ∧ ReflTransGen UniformStep r r') ∨
      ∃ r', fillUniforms i slots r = .ok () r' ∧ ReflTransGen UniformStep r r' ∧
        ∀ j, i ≤ j → j < i + slots.length → (r'.kernel.uniformBuffer? j).isSome := by
  induction slots generalizing i r with
  | nil => exact .inr ⟨r, rfl, .refl, fun j h h' => absurd h' (by simp; omega)⟩
  | cons slot slots ih =>
    have hu : r.kernel.program.layout.uniforms[i]? = some slot := by
      rw [← List.head?_drop, hs]
      rfl
    -- What is left to do once the uniform of this slot has a buffer.
    have next : ∀ {x : EStateM.Result Failure Running Unit} {r' : Running},
        x = fillUniforms (i + 1) slots r' → ReflTransGen UniformStep r r' →
        (r'.kernel.uniformBuffer? i).isSome →
        (∃ f r'', x = .error f r'' ∧ Fault f ∧ ReflTransGen UniformStep r r'') ∨
          ∃ r'', x = .ok () r'' ∧ ReflTransGen UniformStep r r'' ∧
            ∀ j, i ≤ j → j < i + (slots.length + 1) → (r''.kernel.uniformBuffer? j).isSome := by
      intro x r' hx hr hb
      have hp := prepares_of_steps hr
      have hs' : r'.kernel.program.layout.uniforms.drop (i + 1) = slots := by
        rw [hp.program, ← List.drop_drop, hs]
        rfl
      rcases ih (by rw [hp.uniformBuffers, hp.program, hl]) hs' with
        ⟨f, r'', h, hf, hr'⟩ | ⟨r'', h, hr', hj⟩
      · exact .inl ⟨f, r'', hx.trans h, hf, hr.trans hr'⟩
      · refine .inr ⟨r'', hx.trans h, hr.trans hr', fun j hij hjl => ?_⟩
        rcases Nat.eq_or_lt_of_le hij with rfl | hlt
        · obtain ⟨b, hb⟩ := Option.isSome_iff_exists.1 hb
          have hp' := prepares_of_steps hr'
          exact Option.isSome_iff_exists.2 ⟨b, hp'.uniforms _ b hb⟩
        · exact hj j hlt (by omega)
    unfold fillUniforms
    rw [get_bind]
    split
    · rw [modify_bind]
      have hn : UniformStep r { r with log := r.log ++ [unsetLine slot] } := .note _
      rcases ensureUniform_steps (r := { r with log := r.log ++ [unsetLine slot] }) hl hu with
        ⟨f, r', h, hf, hr⟩ | ⟨b, r', h, hr, hb⟩
      · exact .inl ⟨f, r', bind_of_error h, hf, .head hn hr⟩
      · exact next (bind_of_ok h) (.head hn hr) (by rw [hb]; rfl)
    · rename_i hb
      exact next rfl .refl (by simpa [Option.isSome_iff_ne_none] using hb)

/-- The calls that make a pipeline touch no resource and no bind group. -/
theorem createPipeline_events (p : Pipeline) (d : Device) :
    ∃ es, (d.attempted (createPipeline p)).events = d.events ++ es ∧
      ∀ e ∈ es, Event.usesGroups e = false ∧ e.touched = [] ∧ e.created? = none := by
  by_cases hu : p.hasUniforms = true
  · refine ⟨[.createBindGroupLayout "webcs_params" p.params,
      .createBindGroupLayout "webcs_uniforms" p.uniforms,
      .createPipelineLayout "webcs_pipeline_layout" 2,
      .createComputePipeline "webcs_compute_pipeline" Dialect.entryPoint], ?_, ?_⟩
    · simp [attempted, createPipeline, hu, createBindGroupLayout, createPipelineLayout,
        createComputePipeline, record, enter]
    · simp [Event.usesGroups, Event.touched, Event.created?]
  · refine ⟨[.createBindGroupLayout "webcs_params" p.params,
      .createPipelineLayout "webcs_pipeline_layout" 1,
      .createComputePipeline "webcs_compute_pipeline" Dialect.entryPoint], ?_, ?_⟩
    · simp [attempted, createPipeline, hu, createBindGroupLayout, createPipelineLayout,
        createComputePipeline, record, enter]
    · simp [Event.usesGroups, Event.touched, Event.created?]

theorem createPipeline_memory (p : Pipeline) (d : Device) :
    (d.attempted (createPipeline p)).buffers = d.buffers ∧
      (d.attempted (createPipeline p)).textures = d.textures := by
  by_cases hu : p.hasUniforms = true <;>
    simp [attempted, createPipeline, hu, createBindGroupLayout, createPipelineLayout,
      createComputePipeline, record, enter]

theorem buildPipeline_cases (p : Shader.Program) (d : Device) :
    (∃ f, groupLayouts p = .error f ∧ buildPipeline p d = .error (.configuration f) d) ∨
      ∃ l, groupLayouts p = .ok l ∧
        (buildPipeline p d = .ok l (d.attempted (createPipeline l)) ∨
          ∃ m, buildPipeline p d = .error (.shaderLink m) (d.attempted (createPipeline l))) := by
  unfold buildPipeline
  rcases hl : groupLayouts p with f | l
  · exact .inl ⟨f, rfl, rfl⟩
  · refine .inr ⟨l, rfl, ?_⟩
    unfold inScope attempted
    simp only
    rcases (createPipeline l { d with scope := some { } }).scope.bind ErrorScope.error? with _ | e
    · exact .inl rfl
    · exact .inr ⟨_, rfl⟩

/-- The pipeline is there, or it is made, or nothing happens but that the device is asked for it. -/
theorem ensurePipeline_cases (r : Running) :
    (∃ p, r.kernel.pipeline = some p ∧ ensurePipeline r = .ok p r) ∨
      r.kernel.pipeline = none ∧
        ((∃ f, ensurePipeline r = .error (.configuration f) r) ∨
          ∃ l, groupLayouts r.kernel.program = .ok l ∧
            ((∃ m, ensurePipeline r = .error (.shaderLink m)
                { r with device := r.device.attempted (createPipeline l) }) ∨
              ensurePipeline r = .ok l { r with
                device := r.device.attempted (createPipeline l)
                kernel := { r.kernel with pipeline := some l } })) := by
  unfold ensurePipeline
  rw [get_bind]
  rcases hp : r.kernel.pipeline with _ | p
  · rcases buildPipeline_cases r.kernel.program r.device with
      ⟨f, -, h⟩ | ⟨l, hl, h | ⟨m, h⟩⟩
    · exact .inr ⟨rfl, .inl ⟨f, bind_of_error (onDevice_of_error h)⟩⟩
    · exact .inr ⟨rfl, .inr ⟨l, hl, .inr (bind_of_ok (onDevice_of_ok h))⟩⟩
    · exact .inr ⟨rfl, .inr ⟨l, hl, .inl ⟨m, bind_of_error (onDevice_of_error h)⟩⟩⟩
  · exact .inl ⟨p, rfl, rfl⟩

theorem createPipeline_setup (p : Pipeline) (d : Device) :
    (d.attempted (createPipeline p)).setup = d.setup := by
  by_cases hu : p.hasUniforms = true <;>
    simp [setup, attempted, createPipeline, hu, createBindGroupLayout, createPipelineLayout,
      createComputePipeline, record, enter]

/-- Nothing of a kernel but its pipeline changes when the pipeline is made. -/
theorem ensurePipeline_frame {r r' : Running} (hr : endState (ensurePipeline r) = r') :
    (∃ p, r'.kernel = { r.kernel with pipeline := p }) ∧ r'.device.setup = r.device.setup ∧
      r'.device.buffers = r.device.buffers ∧ r'.device.textures = r.device.textures := by
  subst hr
  rcases ensurePipeline_cases r with ⟨p, -, h⟩ | ⟨-, ⟨f, h⟩ | ⟨l, -, ⟨m, h⟩ | h⟩⟩ <;> rw [h]
  · exact ⟨⟨_, rfl⟩, rfl, rfl, rfl⟩
  · exact ⟨⟨_, rfl⟩, rfl, rfl, rfl⟩
  · exact ⟨⟨_, rfl⟩, createPipeline_setup l r.device, createPipeline_memory l r.device⟩
  · exact ⟨⟨_, rfl⟩, createPipeline_setup l r.device, createPipeline_memory l r.device⟩

end Preparation

section Occupied

variable {t : Turn} {arg : Argument Resource} {r r' : Running}

/-- A slot that is occupied stays so. -/
theorem TurnStep.occupied (h : TurnStep t arg r r') {i : Nat}
    (hi : (r.kernel.bound? i).isSome) : (r'.kernel.bound? i).isSome := by
  have keep : ∀ (new : Bound) (r₁ : Running), r₁.kernel = r.kernel →
      ((replaced t new r₁).kernel.bound? i).isSome := by
    intro new r₁ hk
    rw [replaced_kernel]
    show (((r₁.kernel.slots.set t.index (some new))[i]?).join).isSome
    rw [hk]
    by_cases ht : t.index = i
    · subst ht
      have hl : t.index < r.kernel.slots.length := by
        refine Nat.lt_of_not_le fun hl => ?_
        rw [bound?, List.getElem?_eq_none hl] at hi
        simp at hi
      simp [hl]
    · rw [List.getElem?_set_ne ht]
      exact hi
  cases h with
  | lost _ => exact hi
  | fill _ _ => exact keep _ _ rfl
  | write _ _ => exact hi
  | adopt _ => exact keep _ _ rfl

/-- What a slot holds to which an argument was bound has room for the argument. -/
theorem bind_occupied {groups : Extent} (hi : t.index < r.kernel.slots.length)
    (h : bind t groups arg r = .ok () r') :
    ∃ b, r'.kernel.bound? t.index = some b ∧ keepsSlot (some b) arg = true := by
  rcases bind_ok_cases h with ⟨b, _, d, hb, hk, -, -, rfl⟩ | ⟨x, ha, rfl⟩ |
    ⟨_, x, d, _, d', -, -, hs, hd, rfl⟩
  · exact ⟨b, hb, hk⟩
  · exact ⟨_, bound?_replaced hi, by simp [keepsSlot, ha]⟩
  · exact ⟨_, bound?_replaced hi, hs.keeps hd⟩

end Occupied

section Whole

variable {others : List ResourceId} {groups : Extent} {k : Kernel}

theorem argumentIds_cons (arg : Argument Resource) (args : List (Argument Resource)) :
    argumentIds (arg :: args) = argumentIds [arg] ++ argumentIds args := by
  unfold argumentIds
  rw [← List.filterMap_append]
  rfl

/-- The states of a run after each argument that it binds, with what the arguments refer to that
are still to come. -/
def turns (others : List ResourceId) (groups : Extent) : (index : Nat) → List ParamSlot →
    List (Argument Resource) → Running → List (Running × List ResourceId)
  | index, slot :: slots, arg :: args, r =>
    match bind ⟨index, slot, others, argumentIds args⟩ groups arg r with
    | .ok _ r' => (r', argumentIds args) :: turns others groups (index + 1) slots args r'
    | .error _ r' => [(r', argumentIds args)]
  | _, _, _, _ => []

/-- The binding of all arguments ends after the last turn. -/
theorem bindAll_turns (others : List ResourceId) (groups : Extent) :
    ∀ (slots : List ParamSlot) (args : List (Argument Resource)) (index : Nat) (r : Running),
      endState (bindAll others groups index slots args r) = r ∨ ∃ pending,
        (endState (bindAll others groups index slots args r), pending) ∈
          turns others groups index slots args r
  | [], _, _, _ => .inl rfl
  | _ :: _, [], _, _ => .inl rfl
  | slot :: slots, arg :: args, index, r => by
    unfold bindAll turns
    rcases hr : bind ⟨index, slot, others, argumentIds args⟩ groups arg r with
      ⟨_, r'⟩ | ⟨f, r'⟩
    · rw [bind_of_ok hr]
      rcases bindAll_turns others groups slots args (index + 1) r' with h | ⟨pending, h⟩
      · exact .inr ⟨_, by rw [h]; exact List.mem_cons_self⟩
      · exact .inr ⟨pending, List.mem_cons_of_mem _ h⟩
    · rw [bind_of_error hr]
      exact .inr ⟨_, List.mem_singleton_self _⟩

theorem bind_prepares {index : Nat} {slot : ParamSlot} {args : List (Argument Resource)}
    {arg : Argument Resource} {r : Running} (hi : index < r.kernel.slots.length) :
    Prepares r (endState (bind ⟨index, slot, others, argumentIds args⟩ groups arg r)) :=
  kept_of_steps (fun h hr => hr.trans h.prepares)
    (bind_steps ⟨index, slot, others, argumentIds args⟩ groups arg hi) (.refl r)

/-- What each step of the binding of an argument keeps, while what the argument and those after it
refer to is still needed, holds after each turn. -/
theorem turns_keep {I : List ResourceId → Running → Prop}
    (hdrop : ∀ {p q r}, (∀ x ∈ q, x ∈ p) → I p r → I q r)
    (hturn : ∀ {t arg r r'}, t.others = others → TurnStep t arg r r' →
      I (argumentIds [arg] ++ t.pending) r → I (argumentIds [arg] ++ t.pending) r') :
    ∀ (slots : List ParamSlot) (args : List (Argument Resource)) (index : Nat) (r : Running),
      index + slots.length ≤ r.kernel.slots.length → I (argumentIds args) r →
      ∀ t ∈ turns others groups index slots args r, I t.2 t.1
  | [], _, _, _, _, _, t, ht => absurd ht (by simp [turns])
  | _ :: _, [], _, _, _, _, t, ht => absurd ht (by simp [turns])
  | slot :: slots, arg :: args, index, r, hl, h, t, ht => by
    rw [argumentIds_cons] at h
    rw [List.length_cons] at hl
    have hi : index < r.kernel.slots.length := by omega
    have hb := hdrop (fun x hx => List.mem_append_right _ hx)
      (kept_of_steps (P := I (argumentIds [arg] ++ argumentIds args)) (hturn rfl)
        (bind_steps ⟨index, slot, others, argumentIds args⟩ groups arg hi) h)
    have hp : Prepares r (endState (bind ⟨index, slot, others, argumentIds args⟩ groups arg r)) :=
      bind_prepares hi
    unfold turns at ht
    rcases hr : bind ⟨index, slot, others, argumentIds args⟩ groups arg r with
      ⟨_, r'⟩ | ⟨f, r'⟩ <;> simp only [hr] at ht hb hp
    · rcases List.mem_cons.1 ht with rfl | ht
      · exact hb
      · have hl' : index + 1 + slots.length ≤ r'.kernel.slots.length := by
          rw [show r'.kernel.slots.length = _ from hp.slots]
          omega
        exact turns_keep (I := I) hdrop hturn slots args (index + 1) r' hl' hb t ht
    · rw [List.mem_singleton.1 ht]
      exact hb

theorem bindAll_prepares {slots : List ParamSlot} {args : List (Argument Resource)} {index : Nat}
    {r : Running} (hi : index + slots.length ≤ r.kernel.slots.length) :
    Prepares r (endState (bindAll others groups index slots args r)) := by
  rcases bindAll_turns others groups slots args index r with he | ⟨pending, ht⟩
  · rw [he]
    exact .refl r
  · exact turns_keep (I := fun _ => Prepares r) (fun _ h => h) (fun _ h hr => hr.trans h.prepares)
      slots args index r hi (.refl r) _ ht

/-- After all arguments were bound without a failure, their slots are occupied, and so are those
that were before. -/
theorem bindAll_occupied :
    ∀ (slots : List ParamSlot) (args : List (Argument Resource)) (index : Nat) (r : Running)
      {r' : Running}, index + slots.length ≤ r.kernel.slots.length →
      slots.length ≤ args.length → bindAll others groups index slots args r = .ok () r' →
      ∀ i, (r.kernel.bound? i).isSome ∨ index ≤ i ∧ i < index + slots.length →
        (r'.kernel.bound? i).isSome
  | [], args, index, r, r', _, _, h, i, hb => by
    cases h
    rcases hb with hb | ⟨h, h'⟩
    · exact hb
    · simp at h'
      omega
  | slot :: slots, [], index, r, r', _, hl, h, i, hb => by simp at hl
  | slot :: slots, arg :: args, index, r, r', hi, hl, h, i, hb => by
    rw [List.length_cons] at hi hl hb
    rw [List.length_cons] at hl
    have hx : index < r.kernel.slots.length := by omega
    unfold bindAll at h
    obtain ⟨_, r₁, h₁, h₂⟩ := bind_eq_ok h
    have hs := bind_steps ⟨index, slot, others, argumentIds args⟩ groups arg hx
    rw [h₁, endState_ok] at hs
    have hp : Prepares r r₁ := kept_of_steps (fun h hr => hr.trans h.prepares) hs (.refl r)
    refine bindAll_occupied slots args (index + 1) r₁ (by rw [hp.slots]; omega) (by omega) h₂ i ?_
    rcases hb with hb | ⟨h, h'⟩
    · exact .inl (kept_of_steps (P := fun r => (r.kernel.bound? i).isSome)
        (fun h => h.occupied) hs hb)
    · rcases Nat.eq_or_lt_of_le h with rfl | h
      · obtain ⟨b, hb, -⟩ := bind_occupied hx h₁
        exact .inl (by rw [hb]; rfl)
      · exact .inr ⟨h, by omega⟩

/-- A kernel has as many slots and uniform buffers as its layout says, and the buffers are as large
as the values of the uniforms. -/
structure Shaped (k : Kernel) : Prop where
  slots : k.slots.length = k.program.layout.params.length
  uniforms : k.uniformBuffers.length = k.program.layout.uniforms.length
  room : ∀ i slot b, k.program.layout.uniforms[i]? = some slot → k.uniformBuffer? i = some b →
    b.size = slot.byteSize

theorem Prepares.shaped {r r' : Running} (h : Prepares r r') (hs : Shaped r.kernel) :
    Shaped r'.kernel where
  slots := by rw [h.slots, h.program, hs.slots]
  uniforms := by rw [h.uniformBuffers, h.program, hs.uniforms]
  room i slot b hi hb := by
    rw [h.program] at hi
    rcases h.room i b hb with hb | ⟨slot', hi', hle⟩
    · exact hs.room i slot b hi hb
    · cases hi.symm.trans hi'
      exact hle

/-- What a run does once its arguments are bound. -/
theorem uniforms_steps (values : List (String × List Binary64)) {r : Running}
    {slots : List UniformSlot} (hs : Shaped r.kernel)
    (hu : r.kernel.program.layout.uniforms = slots) :
    ReflTransGen UniformStep r
      (endState ((do setUniforms values; fillUniforms 0 slots : RunM Unit) r)) := by
  refine endState_bind (P := ReflTransGen UniformStep r) (setUniforms_steps values hs.uniforms)
    fun _ r₁ _ hr => ?_
  have hp := prepares_of_steps hr
  have hd : r₁.kernel.program.layout.uniforms.drop 0 = slots := by
    rw [hp.program, List.drop_zero, hu]
  rcases fillUniforms_steps slots (hp.shaped hs).uniforms hd with
    ⟨f, r₂, h, -, hr'⟩ | ⟨r₂, h, hr', -⟩ <;> rw [h] <;> exact hr.trans hr'

/-- What the parts are into which arguments are taken apart. -/
theorem split_eq_ok {count : Nat} {args : List (Argument Resource)} {run : RunArgs}
    (h : RunArgs.split count args = .ok run) :
    count ≤ args.length ∧ run.params = args.take count ∧
      RunArgs.paramsFault? 0 run.params = none ∧
      run.uniforms = (RunArgs.splitUniforms (args.drop count)).2 ∧
      ∃ arity, RunArgs.groupCounts arity (RunArgs.splitUniforms (args.drop count)).1 =
        .ok run.groups := by
  unfold RunArgs.split at h
  simp only at h
  split at h
  · cases h
  · rename_i hl
    obtain ⟨groups, hg, h⟩ := except_bind_eq_ok h
    split at h
    · cases h
    · rename_i hf
      cases h
      exact ⟨by omega, rfl, hf, rfl, _, hg⟩

theorem split_params {count : Nat} {args : List (Argument Resource)} {run : RunArgs}
    (h : RunArgs.split count args = .ok run) :
    run.params = args.take count ∧ count ≤ args.length := by
  obtain ⟨hl, hp, -⟩ := split_eq_ok h
  exact ⟨hp, hl⟩

/-- What was checked of the arguments of a run. -/
theorem checkRun_eq_ok {args : List (Argument Resource)} {run : RunArgs}
    (h : k.checkRun args = .ok (run, groups)) :
    RunArgs.split k.program.layout.params.length args = .ok run ∧
      argumentsFault? k.program.layout.params run.params = none ∧
      run.uniforms.bind k.uniformsFault? = none := by
  unfold checkRun at h
  obtain ⟨run', hs, h⟩ := except_bind_eq_ok h
  simp only at h
  split at h
  · cases h
  rename_i ha
  split at h
  · cases h
  rename_i hu
  split at h
  · cases h
  cases h
  refine ⟨mapError_eq_ok_iff.1 hs, ?_, ?_⟩
  · simpa [Option.eq_none_iff_forall_ne_some] using ha
  · simpa [Option.eq_none_iff_forall_ne_some] using hu

/-- How far a preparation gets. -/
theorem prepare_cases (others : List ResourceId) (args : List (Argument Resource)) (r : Running) :
    (∃ f, r.kernel.checkRun args = .error f ∧ prepare others args r = .error f r) ∨
      ∃ run groups, r.kernel.checkRun args = .ok (run, groups) ∧
        ((∃ f r₁, ensurePipeline r = .error f r₁ ∧ prepare others args r = .error f r₁) ∨
          ∃ p r₁, ensurePipeline r = .ok p r₁ ∧
            ((∃ f r₂, bindRun others groups run r₁ = .error f r₂ ∧
                prepare others args r = .error f r₂) ∨
              ∃ r₂, bindRun others groups run r₁ = .ok () r₂ ∧
                prepare others args r = .ok (p, groups) r₂)) := by
  unfold prepare
  rw [get_bind]
  rcases hc : r.kernel.checkRun args with f | ⟨run, groups⟩
  · exact .inl ⟨f, rfl, rfl⟩
  refine .inr ⟨run, groups, rfl, ?_⟩
  have hu : orFail (.ok (run, groups)) r = .ok (run, groups) r := rfl
  rcases he : ensurePipeline r with ⟨p, r₁⟩ | ⟨f, r₁⟩
  · refine .inr ⟨p, r₁, rfl, ?_⟩
    rcases hb : bindRun others groups run r₁ with ⟨_, r₂⟩ | ⟨f, r₂⟩
    · refine .inr ⟨r₂, rfl, (bind_of_ok hu).trans ((bind_of_ok he).trans ?_)⟩
      exact bind_of_ok hb
    · exact .inl ⟨f, r₂, rfl, (bind_of_ok hu).trans ((bind_of_ok he).trans (bind_of_error hb))⟩
  · exact .inl ⟨f, r₁, rfl, (bind_of_ok hu).trans (bind_of_error he)⟩

theorem prepares_pipeline (r : Running) : Prepares r (endState (ensurePipeline r)) := by
  rcases ensurePipeline_cases r with ⟨p, -, h⟩ | ⟨hn, ⟨f, h⟩ | ⟨l, hl, h⟩⟩
  · rw [h]
    exact .refl r
  · rw [h]
    exact .refl r
  · obtain ⟨es, he, hg⟩ := createPipeline_events l r.device
    have hd : Prepares r { r with device := r.device.attempted (createPipeline l) } :=
      prepares_device es he fun e hm => (hg e hm).1
    rcases h with ⟨m, h⟩ | h <;> rw [h]
    · exact hd
    · exact ⟨rfl, rfl, rfl, fun _ _ h => h, fun _ _ h => .inl h, .inr ⟨hn, l, hl, rfl⟩, rfl, rfl,
        rfl, hd.events⟩

/-- The states of a run after each argument that it binds. -/
def runTurns (others : List ResourceId) (args : List (Argument Resource)) (r : Running) :
    List (Running × List ResourceId) :=
  match r.kernel.checkRun args, ensurePipeline r with
  | .ok (run, groups), .ok _ r₁ =>
    turns others groups 0 r₁.kernel.program.layout.params run.params r₁
  | _, _ => []

/-- What holds after each turn and is kept by the work on uniforms holds once a run has bound its
arguments and set its uniforms, or has failed to do so. -/
theorem bindRun_after_turns {P : Running → Prop} {run : RunArgs} {r : Running}
    (hs : Shaped r.kernel)
    (hturns : ∀ t ∈ turns others groups 0 r.kernel.program.layout.params run.params r, P t.1)
    (huniform : ∀ {r r'}, UniformStep r r' → P r → P r') (h : P r) :
    P (endState (bindRun others groups run r)) := by
  unfold bindRun
  rw [get_bind]
  have hl := hs.slots
  have hp : Prepares r (endState (bindAll others groups 0 r.kernel.program.layout.params
      run.params r)) := bindAll_prepares (by omega)
  refine endState_bind ?_ fun _ r₁ h₁ hb => ?_
  · rcases bindAll_turns others groups r.kernel.program.layout.params run.params 0 r with
      he | ⟨pending, ht⟩
    · rw [he]
      exact h
    · exact hturns _ ht
  · rw [h₁, endState_ok] at hp
    exact kept_of_steps huniform (uniforms_steps _ (hp.shaped hs) (by rw [hp.program])) hb

/-- What holds after each turn and is kept by the rest of a preparation holds after it, wherever it
fails. -/
theorem prepare_after_turns {P : Running → Prop} {args : List (Argument Resource)} {r : Running}
    (hs : Shaped r.kernel) (hpipeline : P (endState (ensurePipeline r)))
    (hturns : ∀ t ∈ runTurns others args r, P t.1)
    (huniform : ∀ {r r'}, UniformStep r r' → P r → P r') (h : P r) :
    P (endState (prepare others args r)) := by
  have hp := prepares_pipeline r
  rcases prepare_cases others args r with
    ⟨f, -, hr⟩ | ⟨run, groups, hc, ⟨f, r₁, he, hr⟩ | ⟨p, r₁, he, hr⟩⟩
  · rw [hr]
    exact h
  · rw [hr]
    rwa [he] at hpipeline
  · rw [he, endState_ok] at hp hpipeline
    unfold runTurns at hturns
    simp only [hc, he] at hturns
    have hb := bindRun_after_turns (hp.shaped hs) hturns huniform hpipeline
    rcases hr with ⟨f, r₂, hb', hr⟩ | ⟨r₂, hb', hr⟩ <;> rw [hr] <;> rw [hb'] at hb <;> exact hb

/-- What the making of a pipeline and each step of the binding of an argument keep, while what
the arguments refer to is still needed, holds after each turn of a run. -/
theorem runTurns_keep {I : List ResourceId → Running → Prop} {args : List (Argument Resource)}
    {r : Running} (hs : Shaped r.kernel) (hdrop : ∀ {p q r}, (∀ x ∈ q, x ∈ p) → I p r → I q r)
    (hpipeline : ∀ {p r}, I p r → I p (endState (ensurePipeline r)))
    (hturn : ∀ {t arg r r'}, t.others = others → TurnStep t arg r r' →
      I (argumentIds [arg] ++ t.pending) r → I (argumentIds [arg] ++ t.pending) r')
    (h : I (argumentIds args) r) : ∀ t ∈ runTurns others args r, I t.2 t.1 := by
  intro t ht
  unfold runTurns at ht
  have hp := prepares_pipeline r
  rcases hc : r.kernel.checkRun args with f | ⟨run, groups⟩ <;> simp only [hc] at ht
  · simp at ht
  rcases he : ensurePipeline r with ⟨p, r₁⟩ | ⟨f, r₁⟩ <;> simp only [he] at ht
  · rw [he, endState_ok] at hp
    have hargs : ∀ x ∈ argumentIds run.params, x ∈ argumentIds args := by
      rw [(split_params (checkRun_eq_ok hc).1).1]
      exact (List.Sublist.filterMap _ (List.take_sublist _ _)).subset
    have h₁ := hpipeline (hdrop hargs h)
    rw [he] at h₁
    have hl := (hp.shaped hs).slots
    exact turns_keep (I := I) hdrop hturn _ _ 0 r₁ (by omega) h₁ t ht
  · simp at ht

/-- What the parts of a preparation keep, a preparation keeps, wherever it fails. -/
theorem prepare_keeps {I : List ResourceId → Running → Prop} {args : List (Argument Resource)}
    {r : Running} (hs : Shaped r.kernel) (hdrop : ∀ {p q r}, (∀ x ∈ q, x ∈ p) → I p r → I q r)
    (hpipeline : ∀ {p r}, I p r → I p (endState (ensurePipeline r)))
    (hturn : ∀ {t arg r r'}, t.others = others → TurnStep t arg r r' →
      I (argumentIds [arg] ++ t.pending) r → I (argumentIds [arg] ++ t.pending) r')
    (huniform : ∀ {r r'}, UniformStep r r' → I [] r → I [] r')
    (h : I (argumentIds args) r) : I [] (endState (prepare others args r)) := by
  have hnil : ∀ {p r}, I p r → I [] r := fun h => hdrop (by simp) h
  exact prepare_after_turns hs (hnil (hpipeline h))
    (fun t ht => hnil (runTurns_keep (I := I) hs hdrop hpipeline hturn h t ht)) huniform (hnil h)

theorem prepare_prepares (others : List ResourceId) (args : List (Argument Resource)) {r : Running}
    (hs : Shaped r.kernel) : Prepares r (endState (prepare others args r)) :=
  prepare_keeps (I := fun _ => Prepares r) hs (fun _ h => h)
    (fun h => h.trans (prepares_pipeline _)) (fun _ h hr => hr.trans h.prepares)
    (fun h hr => hr.trans h.prepares) (.refl r)

/-- A kernel that can be launched: it has a pipeline, and its slots and uniforms are occupied. -/
structure Ready (k : Kernel) (p : Pipeline) : Prop extends Shaped k where
  pipeline : k.pipeline = some p
  occupied : ∀ i < k.slots.length, (k.bound? i).isSome
  filled : ∀ i < k.uniformBuffers.length, (k.uniformBuffer? i).isSome

theorem UniformStep.slots {r r' : Running} (h : UniformStep r r') :
    r'.kernel.slots = r.kernel.slots := by
  cases h <;> rfl

theorem slots_of_steps {r r' : Running} (h : ReflTransGen UniformStep r r') :
    r'.kernel.slots = r.kernel.slots :=
  kept_of_steps (P := fun r' => r'.kernel.slots = r.kernel.slots)
    (fun h hr => h.slots.trans hr) h rfl

theorem Prepares.of_pipeline {r r' : Running} {p : Pipeline} (h : Prepares r r')
    (hp : r.kernel.pipeline = some p) : r'.kernel.pipeline = some p := by
  rcases h.pipeline with h | ⟨hn, -⟩
  · rw [h, hp]
  · exact absurd (hn.symm.trans hp) (by simp)

theorem ensurePipeline_ok {r r' : Running} {p : Pipeline} (h : ensurePipeline r = .ok p r') :
    r'.kernel.pipeline = some p := by
  rcases ensurePipeline_cases r with ⟨p', hp, h'⟩ | ⟨-, ⟨f, h'⟩ | ⟨l, -, ⟨m, h'⟩ | h'⟩⟩ <;>
    rw [h'] at h <;> cases h
  · exact hp
  · rfl

/-- Once all arguments are bound and the uniforms have values, a kernel with a pipeline is ready. -/
theorem bindRun_ready {run : RunArgs} {r r' : Running} {p : Pipeline} (hs : Shaped r.kernel)
    (hl : run.params.length = r.kernel.program.layout.params.length)
    (hp : r.kernel.pipeline = some p) (h : bindRun others groups run r = .ok () r') :
    Ready r'.kernel p := by
  unfold bindRun at h
  rw [get_bind] at h
  obtain ⟨_, r₁, h₁, h⟩ := bind_eq_ok h
  obtain ⟨_, r₂, h₂, h₃⟩ := bind_eq_ok h
  have hn : 0 + r.kernel.program.layout.params.length ≤ r.kernel.slots.length := by
    have hl := hs.slots
    omega
  have hr₁ : Prepares r r₁ := by
    have hb : Prepares r (endState (bindAll others groups 0 _ run.params r)) := bindAll_prepares hn
    rwa [h₁] at hb
  have hs₁ := hr₁.shaped hs
  have hr₂ := setUniforms_steps ((run.uniforms.map (·.entries)).getD []) hs₁.uniforms
  rw [h₂, endState_ok] at hr₂
  have hp₂ := prepares_of_steps hr₂
  have hu : r₂.kernel.program.layout.uniforms.drop 0 = r.kernel.program.layout.uniforms := by
    rw [hp₂.program, hr₁.program, List.drop_zero]
  rcases fillUniforms_steps _ (hp₂.shaped hs₁).uniforms hu with
    ⟨f, r₃, h, -⟩ | ⟨r₃, h, hr₃, hf⟩ <;> rw [h] at h₃ <;> cases h₃
  have hr := (hr₁.trans hp₂).trans (prepares_of_steps hr₃)
  refine ⟨hr.shaped hs, hr.of_pipeline hp, fun i hi => ?_, fun i hi => ?_⟩
  · have hb : r'.kernel.slots = r₁.kernel.slots :=
      (slots_of_steps hr₃).trans (slots_of_steps hr₂)
    rw [bound?, hb]
    refine bindAll_occupied _ _ 0 r hn (Nat.le_of_eq hl.symm) h₁ i (.inr ⟨Nat.zero_le i, ?_⟩)
    rw [hr.slots, hs.slots] at hi
    omega
  · rw [hr.uniformBuffers, hs.uniforms] at hi
    exact hf i (Nat.zero_le i) (by omega)

/-- A kernel whose run gets past the preparation is ready. -/
theorem prepare_ready {args : List (Argument Resource)} {r r' : Running} {p : Pipeline}
    (hs : Shaped r.kernel) (h : prepare others args r = .ok (p, groups) r') :
    Ready r'.kernel p := by
  rcases prepare_cases others args r with
    ⟨f, -, hr⟩ | ⟨run, groups', hc, ⟨f, r₁, -, hr⟩ |
      ⟨p', r₁, he, ⟨f, r₂, -, hr⟩ | ⟨r₂, hb, hr⟩⟩⟩ <;> rw [hr] at h <;> cases h
  have hp := prepares_pipeline r
  rw [he, endState_ok] at hp
  obtain ⟨ht, hl⟩ := split_params (checkRun_eq_ok hc).1
  refine bindRun_ready (hp.shaped hs) ?_ (ensurePipeline_ok he) hb
  rw [ht, List.length_take, hp.program]
  omega

end Whole

end Kernel

end ComputeKernel
