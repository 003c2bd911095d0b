import ComputeKernel.Kernel.Read
import ComputeKernel.Proofs.Effect

/-!
# What work on a device uses

Work that is no part of a run destroys nothing. It uses resources that it is given, and resources
that it makes itself and then forgets: the staging buffer of a transfer to the host, the buffer with
the scale of a drawing, and whatever an allocation made before it failed (`Uses`). The buffers that
were there before keep what they hold (`Works`).
-/

namespace ComputeKernel

namespace Device

section Uses

/-- The resource that an event destroys. -/
def Event.destroyed? : Event → Option ResourceId
  | .destroy id => some id
  | _ => none

/-- The device after work that destroys nothing and uses nothing but some resources and those that
it makes. -/
inductive Uses : List ResourceId → Device → Device → Prop
  | refl (ids : List ResourceId) (d : Device) : Uses ids d d
  | create {ids : List ResourceId} {d d₁ d' : Device} {e : Event} {id : ResourceId}
    (he : d₁.events = d.events ++ [e]) (hc : e.created? = some id) (hf : ¬ d.Allocated id)
    (ha : ∀ x, d₁.Allocated x ↔ d.Allocated x ∨ x = id)
    (h : Uses (id :: ids) d₁ d') : Uses ids d d'
  | calls {ids : List ResourceId} {d d₁ d' : Device} {es : List Event}
    (he : d₁.events = d.events ++ es)
    (hn : ∀ e ∈ es, e.created? = none ∧ e.destroyed? = none ∧ ∀ x ∈ e.touched, x ∈ ids)
    (ha : ∀ x, d₁.Allocated x ↔ d.Allocated x) (h : Uses ids d₁ d') :
    Uses ids d d'

variable {ids ids' : List ResourceId} {d d₁ d' : Device}

theorem Uses.mono (h : Uses ids d d') (hi : ∀ x ∈ ids, x ∈ ids') : Uses ids' d d' := by
  induction h generalizing ids' with
  | refl => exact .refl _ _
  | create he hc hf ha _ ih =>
    exact .create he hc hf ha (ih fun x hx => by
      rcases List.mem_cons.1 hx with rfl | hx
      · exact List.mem_cons_self
      · exact List.mem_cons_of_mem _ (hi x hx))
  | calls he hn ha _ ih =>
    refine .calls he (fun e hm => ?_) ha (ih hi)
    obtain ⟨hc, hd, ht⟩ := hn e hm
    exact ⟨hc, hd, fun x hx => hi x (ht x hx)⟩

theorem Uses.trans (h : Uses ids d d₁) (h' : Uses ids d₁ d') : Uses ids d d' := by
  induction h with
  | refl => exact h'
  | create he hc hf ha _ ih =>
    exact .create he hc hf ha (ih (h'.mono fun x hx => List.mem_cons_of_mem _ hx))
  | calls he hn ha _ ih => exact .calls he hn ha (ih h')

/-- Calls that make no resources. -/
theorem uses_calls (es : List Event) (he : d'.events = d.events ++ es)
    (hn : ∀ e ∈ es, e.created? = none ∧ e.destroyed? = none ∧ ∀ x ∈ e.touched, x ∈ ids)
    (hb : d'.buffers.length = d.buffers.length) (ht : d'.textures.length = d.textures.length) :
    Uses ids d d' := by
  refine .calls he hn (fun x => ?_) (.refl _ _)
  cases x with
  | buffer n => rw [Allocated, Allocated, hb]
  | texture n => rw [Allocated, Allocated, ht]

/-- A buffer is made, and what follows may use it. -/
theorem uses_buffer (d₁ : Device) {e : Event} {m : BufferMemory} (he : d₁.events = d.events ++ [e])
    (hc : e.created? = some (.buffer d.buffers.length)) (hb : d₁.buffers = d.buffers ++ [m])
    (ht : d₁.textures = d.textures)
    (h : Uses (.buffer d.buffers.length :: ids) d₁ d') : Uses ids d d' := by
  refine .create he hc (Nat.lt_irrefl _) (fun x => ?_) h
  cases x with
  | buffer n =>
    rw [Allocated, Allocated, hb, List.length_append, List.length_singleton]
    simp
    omega
  | texture n => simp [Allocated, ht]

theorem Creates.uses {x : Resource} (h : Creates d x d') : Uses ids d d' := by
  obtain ⟨e, he, hc⟩ := h.events
  exact .create he hc h.fresh (fun _ => h.allocated_iff) (.refl _ _)

theorem Writes.uses {id : ResourceId} (h : Writes d id d') : Uses [id] d d' := by
  obtain ⟨e, he, hw, ht⟩ := h.events
  refine .calls he (fun e' hm => ?_) (fun _ => h.allocated_iff) (.refl _ _)
  rw [List.mem_singleton.1 hm]
  refine ⟨?_, ?_, by rw [ht]; exact fun x hx => hx⟩ <;> cases e <;>
    simp_all [Event.isWrite, Event.created?, Event.destroyed?]

end Uses

section Works

/-- The device after work that leaves the buffers that were there as they are. -/
structure Grows (d d' : Device) : Prop where
  setup : d'.setup = d.setup
  buffers : ∃ more, d'.buffers = d.buffers ++ more

/-- The device after work that uses some resources and what it makes, and that leaves the buffers
that were there as they are. -/
structure Works (ids : List ResourceId) (d d' : Device) : Prop where
  uses : Uses ids d d'
  grows : Grows d d'

variable {ids ids' : List ResourceId} {d d₁ d' : Device}

theorem Grows.of_eq (hd : d'.setup = d.setup) (hb : d'.buffers = d.buffers) : Grows d d' :=
  ⟨hd, [], by rw [hb, List.append_nil]⟩

theorem Grows.trans (h : Grows d d₁) (h' : Grows d₁ d') : Grows d d' := by
  obtain ⟨more, hb⟩ := h.buffers
  obtain ⟨more', hb'⟩ := h'.buffers
  exact ⟨h'.setup.trans h.setup, more ++ more', by rw [hb', hb, List.append_assoc]⟩

theorem Grows.getElem? (h : Grows d d') {n : Nat} (hn : n < d.buffers.length) :
    d'.buffers[n]? = d.buffers[n]? := by
  obtain ⟨more, hb⟩ := h.buffers
  rw [hb, List.getElem?_append_left hn]

theorem Works.refl (ids : List ResourceId) (d : Device) : Works ids d d :=
  ⟨.refl _ _, .of_eq rfl rfl⟩

theorem Works.mono (h : Works ids d d') (hi : ∀ x ∈ ids, x ∈ ids') : Works ids' d d' :=
  ⟨h.uses.mono hi, h.grows⟩

theorem Works.trans (h : Works ids d d₁) (h' : Works ids d₁ d') : Works ids d d' :=
  ⟨h.uses.trans h'.uses, h.grows.trans h'.grows⟩

/-- Calls that touch no memory. -/
theorem works_idle (es : List Event) (he : d'.events = d.events ++ es)
    (hn : ∀ e ∈ es, e.created? = none ∧ e.destroyed? = none ∧ ∀ x ∈ e.touched, x ∈ ids)
    (hb : d'.buffers = d.buffers) (ht : d'.textures = d.textures)
    (hd : d'.setup = d.setup) : Works ids d d' :=
  ⟨uses_calls es he hn (by rw [hb]) (by rw [ht]), .of_eq hd hb⟩

/-- A change of a device that is no call. -/
theorem works_quiet (he : d'.events = d.events) (hb : d'.buffers = d.buffers)
    (ht : d'.textures = d.textures) (hd : d'.setup = d.setup) : Works ids d d' :=
  works_idle [] (by simpa using he) (by simp) hb ht hd

theorem works_attempted {calls : Device → Device} (h : ∀ d, Works ids d (calls d)) (d : Device) :
    Works ids d (d.attempted calls) := by
  have h₁ : Works ids d { d with scope := some { } } := works_quiet rfl rfl rfl rfl
  exact h₁.trans ((h _).trans (works_quiet rfl rfl rfl rfl))

theorem works_buffer (d₁ : Device) {e : Event} {m : BufferMemory} (he : d₁.events = d.events ++ [e])
    (hc : e.created? = some (.buffer d.buffers.length)) (hb : d₁.buffers = d.buffers ++ [m])
    (ht : d₁.textures = d.textures) (hd : d₁.setup = d.setup)
    (h : Works (.buffer d.buffers.length :: ids) d₁ d') : Works ids d d' :=
  ⟨uses_buffer d₁ he hc hb ht h.uses, .trans ⟨hd, _, hb⟩ h.grows⟩

theorem Creates.grows {x : Resource} (h : Creates d x d') : Grows d d' := by
  cases h with
  | buffer size => exact ⟨rfl, _, rfl⟩
  | bytes bytes => exact ⟨rfl, _, rfl⟩
  | texture width height format => exact .of_eq rfl rfl

end Works

section Transfers

variable {ids : List ResourceId} {d : Device}

theorem endState_checked {α : Type} (task : DeviceTask) (calls : Device → α × Device) :
    endState (Work.checked task calls d) = d.attempted fun d => (calls d).2 := by
  rcases checked_cases d task calls with h | ⟨e, h⟩ <;> rw [h] <;> rfl

theorem takeQueued_works (call : Call) : Works ids d (d.takeQueued call).2 :=
  works_quiet rfl rfl rfl rfl

theorem mapped_works {n : Nat} (hn : .buffer n ∈ ids) :
    Works ids d (endState (Work.mapped n d)) := by
  have hm : Works ids d (d.record (.map n)) :=
    works_idle [.map n] rfl (by simp [Event.created?, Event.destroyed?, Event.touched, hn])
      rfl rfl rfl
  have h₁ := hm.trans (takeQueued_works .lostMap)
  unfold Work.mapped
  rcases ht : (d.record (.map n)).takeQueued .lostMap with ⟨_ | _, d₁⟩ <;> simp only [ht] at h₁ ⊢
  · have h₂ := h₁.trans (takeQueued_works .map)
    rcases ht : d₁.takeQueued .map with ⟨_ | _, d₂⟩ <;> simp only [ht] at h₂ ⊢
    · exact h₂.trans (works_idle [.unmap n] rfl
        (by simp [Event.created?, Event.destroyed?, Event.touched, hn]) rfl rfl rfl)
    · exact h₂
  · exact h₁

/-- A copy to a staging buffer that is then mapped. -/
theorem staged_works {size : Nat} {label : String} {copy : Event} {id : ResourceId} {d₁ : Device}
    (he : d₁.events = (d.createBuffer size label).2.events ++ [copy])
    (hc : copy.created? = none ∧ copy.destroyed? = none)
    (ht : copy.touched = [id, .buffer d.buffers.length])
    {f : BufferMemory → BufferMemory}
    (hb : d₁.buffers = (d.createBuffer size label).2.buffers.modify d.buffers.length f)
    (hx : d₁.textures = d.textures) (hd : d₁.setup = d.setup) :
    Works [id] d (endState (Work.mapped d.buffers.length d₁)) := by
  have hm : Works [.buffer d.buffers.length, id] d₁ (endState (Work.mapped d.buffers.length d₁)) :=
    mapped_works List.mem_cons_self
  refine ⟨uses_buffer (d.createBuffer size label).2 rfl rfl rfl rfl ?_, .trans ⟨hd, ?_⟩ hm.grows⟩
  · refine Uses.trans (uses_calls [copy] he ?_ (by rw [hb, List.length_modify]) (by rw [hx]; rfl))
      hm.uses
    intro e he
    rw [List.mem_singleton.1 he, ht]
    exact ⟨hc.1, hc.2, by simp⟩
  · refine ⟨[f ⟨size, []⟩], hb.trans ?_⟩
    show (d.buffers ++ [_]).modify d.buffers.length f = _
    simp [List.modify_eq_take_cons_drop]

theorem readBuffer_eq (b : Buffer) (d : Device) :
    readBuffer b d = Work.mapped d.buffers.length ((d.createBuffer b.size "webcs_staging").2
      |>.submitBufferCopy b.number d.buffers.length b.size) := rfl

theorem readResource_works (x : Resource) : Works [x.id] d (endState (readResource x d)) := by
  cases x with
  | buffer b =>
    show Works _ d (endState (readBuffer b d))
    rw [readBuffer_eq]
    exact staged_works rfl ⟨rfl, rfl⟩ rfl rfl
      (by simp [submitBufferCopy, updateBuffer, record, enter, createBuffer])
      (by simp [setup, submitBufferCopy, updateBuffer, record, enter, createBuffer])
  | texture t =>
    show Works _ d (endState (readTexture t d))
    rcases Nat.lt_or_ge (pitch (rowBytes t.width t.format)) UInt32.size with h | h
    · have hs : Works [.texture t.number] d (endState (Work.mapped d.buffers.length
          (stagedTexture t d))) :=
        staged_works rfl ⟨rfl, rfl⟩ rfl rfl
          (by simp [stagedTexture, submitTextureCopy, updateBuffer, record, enter, createBuffer])
          (by simp [stagedTexture, setup, submitTextureCopy, updateBuffer, record, enter,
            createBuffer])
      rw [readTexture_of_lt h]
      exact endState_bind hs fun _ _ _ h => h
    · obtain ⟨c, hr⟩ := readTexture_of_le h d
      rw [hr]
      exact .refl _ _

end Transfers

section Drawing

variable {ids : List ResourceId} {d : Device}

theorem ensureBlit_works (made : List TargetFormat) (format : TargetFormat) :
    Works ids d (endState (ensureBlit made format d)) := by
  unfold ensureBlit
  split
  · exact .refl _ _
  · refine endState_bind (P := Works ids d) ?_ fun _ _ _ h => h
    rw [endState_checked]
    refine works_attempted (fun d => ?_) d
    refine works_idle [.createShaderModule "webcs_blit_shader" .wgsl,
      .createBindGroupLayout "webcs_blit_layout" blitEntries,
      .createPipelineLayout "webcs_blit_pipeline_layout" 1,
      .createRenderPipeline "webcs_blit_pipeline" format] ?_ ?_ ?_ ?_ ?_
    case refine_2 => simp [Event.created?, Event.destroyed?, Event.touched]
    all_goals
      simp [createBlit, createShaderModule, createBindGroupLayout, createPipelineLayout,
        createRenderPipeline, record, enter, setup]

theorem blit_works (t : Texture) (target : Target) :
    Works [.texture t.number] d (endState (blit t target d)) := by
  unfold blit
  rw [endState_checked]
  refine works_attempted (fun d => ?_) d
  refine works_buffer (d.createBufferInit (blitScale t target).toBytes "webcs_blit_scale").2
    rfl rfl rfl rfl rfl ?_
  let group := [ResourceId.texture t.number, .buffer d.buffers.length]
  refine works_idle [.createBindGroup "webcs_blit" group, .draw target.view group] ?_ ?_ rfl rfl ?_
  · simp [drawBlit, createBindGroup, submitDraw, record, enter, createBufferInit, group]
  · simp [Event.created?, Event.destroyed?, Event.touched, group]
  · simp [drawBlit, createBindGroup, submitDraw, record, enter, createBufferInit, setup]

end Drawing

end Device

namespace Kernel

open Device

section Reading

variable {k : Kernel} {d : Device}

theorem mem_resources {i : Nat} {b : Bound} (h : k.bound? i = some b) :
    b.resource.id ∈ k.resources := by
  have hb : some b ∈ k.slots := List.mem_of_getElem? (Option.join_eq_some_iff.1 h)
  exact List.mem_filterMap.2 ⟨some b, hb, rfl⟩

/-- Reading something that is bound to a slot. -/
theorem readOccupied_works {α : Type} (name : String) (i : Nat) (f : List UInt8 → α) :
    Works k.resources d (endState ((do
      let x ← usedOnDevice (k.occupied name i)
      return f (← readResource x) : Work α) d)) := by
  unfold occupied
  rcases hb : k.bound? i with _ | b
  · exact .refl _ _
  · refine endState_bind (x := readResource b.resource) (s := d) ?_ fun _ _ _ h => h
    exact (readResource_works b.resource).mono fun x hx =>
      List.mem_singleton.1 hx ▸ mem_resources hb

theorem read_works (name : String) (hint : Option String) :
    Works k.resources d (endState (k.read name hint d)) := by
  unfold read
  rcases k.param? name with f | ⟨i, slot⟩
  · exact .refl _ _
  show Works _ d (endState ((usedOnDevice (readScalar slot hint) >>= _) d))
  rcases readScalar slot hint with f | scalar
  · exact .refl _ _
  · exact readOccupied_works name i (HostData.ofBytes scalar)

theorem readInto_works (name : String) (old : HostData) :
    Works k.resources d (endState (k.readInto name old d)) := by
  unfold readInto
  rcases k.param? name with f | ⟨i, slot⟩
  · exact .refl _ _
  · exact readOccupied_works name i old.refill

theorem loadModule_works (p : Shader.Program) {ids : List ResourceId} :
    Works ids d (endState (loadModule p d)) := by
  have hu : Works ids d (d.attempted (·.createShaderModule "webcs_compute_shader" p.dialect)) := by
    refine works_attempted (fun d => ?_) d
    exact works_idle [.createShaderModule _ _] rfl
      (by simp [Event.created?, Event.destroyed?, Event.touched]) rfl rfl rfl
  unfold loadModule inScope
  simp only
  split
  · rename_i h
    simp only [Prod.mk.injEq] at h
    obtain ⟨-, -, rfl⟩ := h
    exact hu
  · rename_i h
    simp only [Prod.mk.injEq] at h
    obtain ⟨-, -, rfl⟩ := h
    exact hu

/-- A kernel is made with nothing bound to it, and the device uses no resource for that. -/
theorem create_cases (p : Shader.Program) (groups : Option Extent) (target : RenderTarget)
    (d : Device) : ∃ d', Works [] d d' ∧ ((∃ f, create p groups target d = .error f d') ∨
      create p groups target d = .ok (fresh p groups target) d') := by
  have hu : Works [] d (endState (loadModule p d)) := loadModule_works p
  unfold create
  rw [get_bind]
  split
  · exact ⟨d, .refl _ _, .inl ⟨_, rfl⟩⟩
  · rcases hl : loadModule p d with ⟨_, d'⟩ | ⟨f, d'⟩ <;> rw [hl] at hu
    · exact ⟨d', hu, .inr (bind_of_ok hl)⟩
    · exact ⟨d', hu, .inl ⟨f, bind_of_error hl⟩⟩

end Reading

end Kernel

end ComputeKernel
