import ComputeKernel.Proofs.Destruction
import ComputeKernel.Proofs.Typing

/-!
# The memory of what is in use

A buffer that is in a slot or that a caller holds is known by its size. The device has memory of
this size for it, and nothing longer was ever written to it (`Houses`). What is written to a buffer
was found to have room there, so no write takes that from any buffer (`Retains`). It holds over
whole histories of a session (`Reached.stocked`).
-/

namespace ComputeKernel

open Device Relation RunM Shader

namespace Device

variable {d d₁ d' : Device} {b : Buffer} {x : Resource} {bytes : List UInt8}

/-- The device has memory for a buffer, as much as the buffer has bytes. -/
structure Houses (d : Device) (b : Buffer) : Prop where
  pos : 0 < b.size
  dvd : 4 ∣ b.size
  memory : ∃ m, d.buffers[b.number]? = some m ∧ m.size = b.size ∧ m.head.length ≤ m.size

/-- The device has a resource, within its limits. -/
def Has (d : Device) : Resource → Prop
  | .buffer b => Houses d b ∧ b.size ≤ d.limits.bufferSize
  | .texture _ => True

/-- What a device had memory for, it has memory for after some work too. -/
structure Retains (d d' : Device) : Prop where
  limits : d'.limits = d.limits
  length : d.buffers.length ≤ d'.buffers.length
  houses : ∀ b, Houses d b → Houses d' b

theorem Houses.lt (h : Houses d b) : b.number < d.buffers.length := by
  obtain ⟨m, hm, -⟩ := h.memory
  exact (List.getElem?_eq_some_iff.1 hm).1

theorem Houses.length (h : Houses d b) : (d.bufferContents b.number).length = b.size := by
  obtain ⟨m, hm, hs, hl⟩ := h.memory
  simp only [bufferContents, hm, BufferMemory.contents, filled, List.length_append,
    List.length_replicate]
  omega

theorem Houses.of_eq (h : Houses d b) (hm : d'.buffers[b.number]? = d.buffers[b.number]?) :
    Houses d' b := ⟨h.pos, h.dvd, by rw [hm]; exact h.memory⟩

/-- Bytes that have room in a buffer have room there with the zeros that fill them up. -/
theorem Houses.room (h : Houses d b) (hl : bytes.length ≤ b.size) :
    (aligned bytes).length ≤ b.size := by
  have ha := alignedSize_le h.pos h.dvd hl
  rw [length_aligned]
  omega

theorem Retains.of_eq (hl : d'.limits = d.limits) (hb : d'.buffers = d.buffers) : Retains d d' :=
  ⟨hl, by simp [hb], fun _ h => h.of_eq (by rw [hb])⟩

theorem Retains.trans (h : Retains d d₁) (h' : Retains d₁ d') : Retains d d' :=
  ⟨h'.limits.trans h.limits, Nat.le_trans h.length h'.length,
    fun b hb => h'.houses b (h.houses b hb)⟩

/-- What only adds to a device takes nothing from it. -/
theorem Grows.retains (h : Grows d d') : Retains d d' := by
  obtain ⟨more, hb⟩ := h.buffers
  refine ⟨limits_of_setup h.setup, ?_, fun _ hb => hb.of_eq (h.getElem? hb.lt)⟩
  rw [hb, List.length_append]
  omega

theorem Has.retained (h : d.Has x) (hr : Retains d d') : d'.Has x := by
  cases x with
  | buffer b => exact ⟨hr.houses b h.1, hr.limits ▸ h.2⟩
  | texture t => trivial

/-- A write leaves a buffer as large as it is. -/
theorem retains_write (h : Houses d b) (hw : bytes.length ≤ b.size) (hl : d'.limits = d.limits)
    (hb : d'.buffers = d.buffers.modify b.number (·.write bytes)) : Retains d d' := by
  refine ⟨hl, by simp [hb], fun b' h' => ?_⟩
  by_cases hn : b.number = b'.number
  · obtain ⟨m, hm, hs, hh⟩ := h.memory
    obtain ⟨m', hm', hs', -⟩ := h'.memory
    rw [← hn, hm] at hm'
    cases hm'
    refine ⟨h'.pos, h'.dvd, m.write bytes, ?_, hs', ?_⟩
    · rw [hb, ← hn, List.getElem?_modify_eq, hm]
      rfl
    · simp only [BufferMemory.write, overwrite, List.length_append, List.length_drop]
      omega
  · exact h'.of_eq (by simp [hb, hn])

/-- A write of what has room in a buffer, which the device may discard. -/
theorem writeBuffer_retains (h : Houses d b) (hl : bytes.length ≤ b.size) :
    Retains d (d.attempted (·.writeBuffer b.number (aligned bytes))) := by
  let write : BufferMemory → BufferMemory := (·.write (aligned bytes))
  have hb : (d.attempted (·.writeBuffer b.number (aligned bytes))).buffers =
      d.buffers.modify b.number (d.written .writeBuffer write) := rfl
  rcases written_cases d .writeBuffer write with hw | hw <;> rw [hw] at hb
  · exact retains_write h (h.room hl) rfl hb
  · exact .of_eq rfl (by rw [hb, List.modify_id])

theorem uploadBuffer_retains (h : Houses d b) (bytes : List UInt8) :
    Retains d (endState (uploadBuffer b bytes d)) := by
  rcases uploadBuffer_cases b bytes d with ⟨-, hu⟩ | ⟨-, hu⟩ | ⟨-, hl, hu | ⟨f, -, hu⟩⟩ <;> rw [hu]
  · exact .of_eq rfl rfl
  · exact .of_eq rfl rfl
  · exact writeBuffer_retains h hl
  · exact writeBuffer_retains h hl

theorem uploadTexture_retains (t : Texture) (texels : List UInt8) (width height : UInt32)
    (d : Device) : Retains d (endState (uploadTexture t texels width height d)) := by
  rcases uploadTexture_end t texels width height d with h | h
  · exact .of_eq (by rw [h]) (by rw [h])
  · have hsame : ∀ n : Nat, _ := fun n => h.spares.buffers n (by simp)
    refine ⟨h.limits, List.getElem?_eq_none_iff.1 ?_, fun b hb => hb.of_eq (hsame _)⟩
    rw [← hsame, List.getElem?_eq_none (Nat.le_refl _)]

theorem houses_of_creates (h : Creates d (.buffer b) d') (hpos : 0 < b.size) (hdvd : 4 ∣ b.size) :
    Houses d' b := by
  refine ⟨hpos, hdvd, ?_⟩
  cases h with
  | buffer size => exact ⟨⟨size, []⟩, List.getElem?_concat_length, rfl, Nat.zero_le _⟩
  | bytes bytes => exact ⟨⟨bytes.length, bytes⟩, List.getElem?_concat_length, rfl, Nat.le_refl _⟩

theorem has_of_creates (hd : d.Bounded) (h : Creates d x d') (hx : x.Within d.limits) :
    d'.Has x := by
  cases x with
  | buffer b =>
    obtain ⟨hpos, hdvd⟩ := hx.2 hd
    exact ⟨houses_of_creates h hpos hdvd, h.limits ▸ hx.1⟩
  | texture t => trivial

end Device

namespace Kernel

/-- The device has what is in the slots of a kernel and the buffers of its uniforms. -/
structure Stocked (d : Device) (k : Kernel) : Prop where
  slots : ∀ j y, k.bound? j = some y → d.Has y.resource
  uniforms : ∀ j b, k.uniformBuffer? j = some b → d.Houses b

section Turns

variable {t : Turn} {groups : Extent} {slot : ParamSlot} {arg : Argument Resource} {k : Kernel}
  {x : Resource} {d d' : Device} {r r' : Running}

theorem Stocked.retained (h : Stocked d k) (hr : Retains d d') : Stocked d' k :=
  ⟨fun j y hy => (h.slots j y hy).retained hr, fun j b hb => hr.houses b (h.uniforms j b hb)⟩

theorem Asks.within {b : Option Bound} {ask : Work Resource} (ha : Asks k groups slot b arg ask)
    (h : ask d = .ok x d') : x.Within d.limits := by
  cases ha with
  | buffer _ _ _ | host _ =>
    obtain ⟨b, hb, rfl⟩ := map_eq_ok h
    exact allocateBuffer_within hb
  | texture _ _ | image _ _ _ =>
    obtain ⟨y, -, rfl⟩ := map_eq_ok h
    trivial

theorem Sends.retains {send : Work Unit} (h : Sends slot arg x send) (hx : d.Has x) :
    Retains d (endState (send d)) := by
  cases h with
  | null _ => exact .of_eq rfl rfl
  | host data b => exact uploadBuffer_retains hx.1 _
  | image _ _ y => exact uploadTexture_retains _ _ _ _ _

theorem replaced_retains (t : Turn) (new : Bound) (r : Running) :
    Retains r.device (replaced t new r).device := by
  obtain ⟨-, hs, hb⟩ := replaced_frame t new r
  exact .of_eq (limits_of_setup hs) hb

/-- The binding of an argument takes no memory from a buffer, and what is in its slot then has
memory. -/
theorem bind_retains (groups : Extent) (hi : t.index < r.kernel.slots.length)
    (hd : r.device.Bounded) (hk : Stocked r.device r.kernel)
    (ha : ∀ x, arg = .resource x → r.device.Has x) :
    Retains r.device (endState (bind t groups arg r)).device ∧
      ∀ y, (endState (bind t groups arg r)).kernel.bound? t.index = some y →
        (endState (bind t groups arg r)).device.Has y.resource := by
  have hb := bind_binds t groups arg r
  generalize bind t groups arg r = z at hb ⊢
  cases hb with
  | refused _ => exact ⟨.of_eq rfl rfl, fun y hy => hk.slots _ y hy⟩
  | kept hb _ hs =>
    rw [endState_onDevice]
    have hr := hs.retains (hk.slots _ _ hb)
    exact ⟨hr, fun y hy => (hk.slots _ y hy).retained hr⟩
  | @adopted x h =>
    have hr := replaced_retains t ⟨x, .borrowed⟩ r
    refine ⟨hr, fun y hy => ?_⟩
    rw [endState_ok, bound?_replaced hi] at hy
    cases hy
    exact (ha _ h).retained hr
  | @unmade _ _ d hask h =>
    have hr : Retains r.device d := by
      rcases hask.allocates.1 r.device with ⟨f, h'⟩ | ⟨f, x, d, h', hc⟩ | ⟨a, d, h', -⟩ <;>
        cases h.symm.trans h'
      · exact .of_eq rfl rfl
      · exact hc.grows.retains
    exact ⟨hr, fun y hy => (hk.slots _ y hy).retained hr⟩
  | @made _ _ x d hask h hs =>
    have hc := hask.creates h
    have hx := has_of_creates hd hc (hask.within h)
    have hr := replaced_retains t ⟨x, .owned⟩ { r with device := d }
    rw [endState_onDevice]
    have hsent := hs.retains (hx.retained hr)
    refine ⟨hc.grows.retains.trans (hr.trans hsent), fun y hy => ?_⟩
    have hnew : (replaced t ⟨x, .owned⟩ { r with device := d }).kernel.bound? t.index = _ :=
      bound?_replaced hi
    cases hnew.symm.trans hy
    exact (hx.retained hr).retained hsent

theorem bind_stocked (groups : Extent) (hi : t.index < r.kernel.slots.length)
    (hd : r.device.Bounded) (hk : Stocked r.device r.kernel)
    (ha : ∀ x, arg = .resource x → r.device.Has x) :
    Retains r.device (endState (bind t groups arg r)).device ∧
      Stocked (endState (bind t groups arg r)).device (endState (bind t groups arg r)).kernel := by
  obtain ⟨hr, hown⟩ := bind_retains groups hi hd hk ha
  have hT := bind_turned groups arg hi
  obtain ⟨slots, hkernel⟩ := hT.kernel
  refine ⟨hr, fun j y hy => ?_, fun j b hb => ?_⟩
  · by_cases hj : j = t.index
    · exact hown y (hj ▸ hy)
    · rw [hT.others j hj] at hy
      exact (hk.slots j y hy).retained hr
  · rw [hkernel] at hb
    exact hr.houses b (hk.uniforms j b hb)

/-- The work on uniforms makes the buffers that it writes to. -/
theorem UniformStep.stocked (h : UniformStep r r') (hk : Stocked r.device r.kernel) :
    Retains r.device r'.device ∧ Stocked r'.device r'.kernel := by
  cases h with
  | lost h => exact ⟨h.grows.retains, hk.retained h.grows.retains⟩
  | @fill i slot b d hi hn hs hb h =>
    have hr := h.grows.retains
    refine ⟨hr, (hk.retained hr).slots, fun j b' hb' => ?_⟩
    by_cases hj : i = j
    · subst hj
      simp only [uniformBuffer?, List.getElem?_set_self hi, Option.join_some,
        Option.some.injEq] at hb'
      subst hb'
      have hsize : 0 < slot.byteSize ∧ 4 ∣ slot.byteSize := by
        unfold UniformSlot.byteSize
        cases slot.kind <;> decide
      exact houses_of_creates h (hb ▸ hsize.1) (hb ▸ hsize.2)
    · rw [uniformBuffer?, List.getElem?_set_ne hj] at hb'
      exact hr.houses b' (hk.uniforms j b' hb')
  | write hb hl =>
    have hr := writeBuffer_retains (hk.uniforms _ _ hb) hl
    exact ⟨hr, hk.retained hr⟩
  | note line => exact ⟨.of_eq rfl rfl, hk⟩

end Turns

section Runs

variable {others : List ResourceId} {args : List (Argument Resource)} {r : Running}

theorem setUniform_stocked (name : String) (values : List Binary64)
    (hs : r.kernel.uniformBuffers.length = r.kernel.program.layout.uniforms.length)
    (hk : Stocked r.device r.kernel) :
    Retains r.device (endState (setUniform name values r)).device ∧
      Stocked (endState (setUniform name values r)).device
        (endState (setUniform name values r)).kernel :=
  kept_of_steps (P := fun r' => Retains r.device r'.device ∧ Stocked r'.device r'.kernel)
    (fun h hp => ⟨hp.1.trans (h.stocked hp.2).1, (h.stocked hp.2).2⟩)
    (setUniform_steps name values hs) ⟨.of_eq rfl rfl, hk⟩

theorem ensurePipeline_stocked {r₁ : Running} (he : endState (ensurePipeline r) = r₁)
    (hk : Stocked r.device r.kernel) :
    Retains r.device r₁.device ∧ Stocked r₁.device r₁.kernel := by
  obtain ⟨⟨p, hkernel⟩, hsetup, hb, -⟩ := ensurePipeline_frame he
  have hr : Retains r.device r₁.device := .of_eq (limits_of_setup hsetup) hb
  rw [hkernel]
  exact ⟨hr, (hk.retained hr).slots, (hk.retained hr).uniforms⟩

/-- A run takes no memory from a buffer, wherever it fails. -/
theorem run_stocked (others : List ResourceId) (hc : Coherent r.kernel) (hd : r.device.Bounded)
    (hk : Stocked r.device r.kernel) (ha : ∀ x, .resource x ∈ args → r.device.Has x) :
    Retains r.device (endState (run others args r)).device ∧
      Stocked (endState (run others args r)).device (endState (run others args r)).kernel := by
  let I : Running → Prop := fun r' => Retains r.device r'.device ∧ Stocked r'.device r'.kernel
  have hpipeline : ∀ r₁, endState (ensurePipeline r) = r₁ → I r₁ := fun r₁ he =>
    ensurePipeline_stocked he hk
  have hend : Ends I (fun _ => I) (run others args r) := by
    refine run_ends hc (fun _ _ => ⟨.of_eq rfl rfl, hk⟩)
      (fun f r₁ he => hpipeline r₁ (congrArg endState he)) (fun run groups r₁ hcheck he hs => ?_)
      (fun h hI => ⟨hI.1.trans (h.stocked hI.2).1, (h.stocked hI.2).2⟩) (fun h hI => ?_)
      fun _ hI => hI
    · -- Before each turn there are as many slots as at the start.
      let J : Nat → Running → Prop := fun _ r' =>
        r'.kernel.slots.length = r₁.kernel.slots.length ∧ I r'
      have hall : Ends (J _) (fun _ => I) (bindAll others groups 0 _ run.params r₁) :=
        bindAll_ends r₁.kernel.program.layout.params run.params 0 r₁ ?_ ⟨rfl, hpipeline r₁ he⟩
      · rcases hx : bindAll others groups 0 r₁.kernel.program.layout.params run.params r₁ with
          ⟨_, r₂⟩ | ⟨f, r₂⟩ <;> rw [hx] at hall
        · exact hall.2
        · exact hall
      · rintro j arg t r₂ hslot harg hj ⟨hlen, hret, hst⟩
        have hi : t.index < r₂.kernel.slots.length := by
          have := (List.getElem?_eq_some_iff.1 hslot).1
          rw [hlen, hs.slots]
          omega
        have harg' : ∀ x, arg = .resource x → r₂.device.Has x := by
          rintro x rfl
          have hm := List.mem_of_getElem? harg
          rw [(split_params (checkRun_eq_ok hcheck).1).1] at hm
          exact (ha x (List.mem_of_mem_take hm)).retained hret
        have hb := bind_stocked groups hi (by rwa [Bounded, hret.limits]) hst harg'
        have hT := bind_turned groups arg hi
        rcases hr : bind t groups arg r₂ with ⟨_, r₃⟩ | ⟨f, r₃⟩ <;> rw [hr] at hb hT
        · exact ⟨hT.length.trans hlen, hret.trans hb.1, hb.2⟩
        · exact ⟨hret.trans hb.1, hb.2⟩
    · obtain ⟨_, _, _, hkernel⟩ := h.kernel
      have hr := Retains.of_eq (limits_of_setup h.setup) h.memory.1
      have hst := hI.2.retained hr
      refine ⟨hI.1.trans hr, ?_⟩
      rw [hkernel]
      exact ⟨hst.slots, hst.uniforms⟩
  rcases hr : run others args r with ⟨_, r'⟩ | ⟨f, r'⟩ <;> rw [hr] at hend <;> exact hend

end Runs

end Kernel

section Sessions

variable {frontEnd : FrontEnd} {s s' : Session} {h : History} {i : Nat} {c : Command}

/-- The device of a session has what its kernels and its caller refer to. -/
structure Session.Stocked (s : Session) : Prop where
  limit : s.device.limits.bufferSize = standardBufferSize
  kernels : ∀ k ∈ s.kernels, k.Stocked s.device
  buffers : ∀ b, some b ∈ s.buffers → s.device.Has (.buffer b)

theorem Session.Stocked.bounded (hs : s.Stocked) : s.device.Bounded := by
  rw [Bounded, hs.limit]
  decide

theorem Session.Stocked.resource (hs : s.Stocked) {a : Handle} {x : Resource}
    (hx : s.resource? a = some x) : s.device.Has x := by
  cases a with
  | buffer i =>
    obtain ⟨b, hb, rfl⟩ := Option.map_eq_some_iff.1 hx
    exact hs.buffers b (List.mem_of_getElem? (Option.join_eq_some_iff.1 hb))
  | texture i =>
    obtain ⟨t, -, rfl⟩ := Option.map_eq_some_iff.1 hx
    trivial

/-- Work that takes no memory from a buffer, with other kernels that the device has. -/
theorem Session.Stocked.retained (hs : s.Stocked) (s' : Session)
    (hr : Retains s.device s'.device)
    (hk : ∀ k ∈ s'.kernels, k.Stocked s'.device ∨ k ∈ s.kernels)
    (hb : ∀ b, some b ∈ s'.buffers → s'.device.Has (.buffer b) ∨ some b ∈ s.buffers) :
    s'.Stocked where
  limit := by rw [hr.limits, hs.limit]
  kernels k hm := (hk k hm).elim id fun hm => (hs.kernels k hm).retained hr
  buffers b hm := (hb b hm).elim id fun hm => (hs.buffers b hm).retained hr

theorem Session.Stocked.hold (hs : s.Stocked) {x : Resource} {d : Device}
    (hr : Retains s.device d) (hx : d.Has x) : (Session.hold { s with device := d } x).Stocked := by
  cases x with
  | buffer b =>
    refine hs.retained (Session.hold { s with device := d } (.buffer b)) hr
      (fun _ hm => .inr hm) fun b' hm => ?_
    rcases List.mem_append.1 hm with hm | hm
    · exact .inr hm
    · cases List.mem_singleton.1 hm
      exact .inl hx
  | texture t =>
    exact hs.retained (Session.hold { s with device := d } (.texture t)) hr
      (fun _ hm => .inr hm) fun _ hm => .inr hm

theorem Session.mem_buffers_release {b : Buffer} {x : Handle}
    (hm : some b ∈ (s.release x).buffers) : some b ∈ s.buffers := by
  cases x with
  | buffer i =>
    rcases List.mem_or_eq_of_mem_set hm with hm | hm
    · exact hm
    · cases hm
  | texture i => exact hm

theorem Session.mem_buffers_releaseAll {b : Buffer} {given : List Handle}
    (hm : some b ∈ (s.releaseAll given).buffers) : some b ∈ s.buffers := by
  induction given generalizing s with
  | nil => exact hm
  | cons x given ih => exact mem_buffers_release (ih (s := s.release x) hm)

theorem Session.Stocked.finish {r : Running} (hs : s.Stocked) (given : List Handle)
    (hr : Retains s.device r.device ∧ r.kernel.Stocked r.device) :
    ((s.releaseAll given).finish i r).Stocked := by
  refine hs.retained ((s.releaseAll given).finish i r) hr.1 (fun k hm => ?_) fun b hm => ?_
  case refine_2 =>
    have hm : some b ∈ (s.releaseAll given).buffers := hm
    exact .inr (mem_buffers_releaseAll hm)
  rcases List.mem_or_eq_of_mem_set hm with hm | rfl
  · exact .inr (by rwa [releaseAll_kernels] at hm)
  · exact .inl hr.2

theorem Session.Stocked.move (hs : s.Stocked) (ha : Accounted h s)
    (hm : Session.Move frontEnd c s s') : s'.Stocked := by
  have hsame : Retains s.device s.device := .of_eq rfl rfl
  cases hm with
  | use hw _ => exact hs.retained _ hw.grows.retains (fun _ hm => .inr hm) fun _ hm => .inr hm
  | blits _ => exact hs.retained _ hsame (fun _ hm => .inr hm) fun _ hm => .inr hm
  | make hc hx => exact hs.hold hc.grows.retains (has_of_creates hs.bounded hc hx)
  | take hk hb => exact hs.hold hsame ((hs.kernels _ (List.mem_of_getElem? hk)).slots _ _ hb)
  | drop x =>
    refine hs.retained _ (by rw [Session.release_device]; exact hsame) (fun k hm => .inr ?_)
      fun b hm => .inr (Session.mem_buffers_release hm)
    rwa [Session.release_kernels] at hm
  | dropKernel hk =>
    refine hs.retained _ hsame (fun k hm => ?_) fun _ hm => .inr hm
    rcases List.mem_or_eq_of_mem_set hm with hm | rfl
    · exact .inr hm
    · refine .inl ⟨fun j y hy => ?_, (hs.kernels _ (List.mem_of_getElem? hk)).uniforms⟩
      rw [bound?_emptied] at hy
      cases hy
  | kernel _ =>
    refine hs.retained _ hsame (fun k hm => ?_) fun _ hm => .inr hm
    rcases List.mem_append.1 hm with hm | hm
    · exact .inr hm
    · rw [List.mem_singleton.1 hm]
      refine .inl ⟨fun j y hy => ?_, fun j b hb => ?_⟩
      · rw [bound?_fresh] at hy
        cases hy
      · rw [uniformBuffer?_fresh] at hb
        cases hb
  | groups hk g =>
    refine hs.retained _ hsame (fun k hm => ?_) fun _ hm => .inr hm
    rcases List.mem_or_eq_of_mem_set hm with hm | rfl
    · exact .inr hm
    · have hk := hs.kernels _ (List.mem_of_getElem? hk)
      exact .inl ⟨hk.slots, hk.uniforms⟩
  | @uniform i k name values _ hk =>
    exact hs.finish [] (Kernel.setUniform_stocked (r := s.starting k) name values
      (ha.kept _ _ hk).uniforms (hs.kernels k (List.mem_of_getElem? hk)))

theorem Session.Stocked.run (hs : s.Stocked) (ha : Accounted h s) (args : List (Argument Handle))
    (given : List Handle) : (s.run i args given).session.Stocked := by
  rcases s.run_step i args given with ⟨-, hn⟩ | ⟨resources, k, hargs, hk, hr, -⟩
  · rw [hn]
    exact hs
  · replace hk := Session.getElem?_of_kernel? hk
    rw [hr]
    refine hs.finish given (Kernel.run_stocked (r := s.starting k) _ (ha.kept i k hk).toCoherent
      hs.bounded (hs.kernels k (List.mem_of_getElem? hk)) fun x hx => ?_)
    obtain ⟨a, hx⟩ := Session.exists_handle hargs hx
    exact hs.resource hx

theorem Session.Stocked.quiet (hs : s.Stocked) : s.quiet.Stocked :=
  hs.retained s.quiet (.of_eq rfl rfl) (fun _ hm => .inr hm) fun _ hm => .inr hm

/-- The device of a session always has what its kernels and its caller refer to. -/
theorem Reached.stocked (hs : Reached frontEnd s h) : s.Stocked := by
  induction hs with
  | start hs =>
    have he := Session.start_empty hs
    exact ⟨he.limit, by simp [he.kernels], by simp [he.handles]⟩
  | @perform s h hs c ih =>
    have ha : Accounted h s.quiet := hs.accounted.same rfl fun _ => rfl
    by_cases hc : ∃ i args given, c = .run i args given
    · obtain ⟨i, args, given, rfl⟩ := hc
      exact ih.quiet.run ha args given
    · have hm : ReflTransGen (Session.Move frontEnd c) s.quiet (s.quiet.step frontEnd c).session :=
        Session.step_moves fun i args given he => hc ⟨i, args, given, he⟩
      exact (kept_of_steps (P := fun s => Session.Stocked s ∧ Accounted h s)
        (fun hm hp => ⟨hp.1.move hp.2 hm, hp.2.move hm⟩) hm ⟨ih.quiet, ha⟩).1

/-- Nothing is in the slots of the kernels that the caller dropped. -/
def Session.Vacated (s : Session) : Prop :=
  ∀ i ∈ s.dropped, ∀ k, s.kernels[i]? = some k → ∀ j, k.bound? j = none

theorem Session.Vacated.same (hv : s.Vacated) (hk : s'.kernels = s.kernels)
    (hd : s'.dropped = s.dropped) : s'.Vacated := by
  unfold Vacated
  rw [hk, hd]
  exact hv

/-- A kernel that was dropped may change in anything but its slots. -/
theorem Session.Vacated.set {k k' : Kernel} (hv : s.Vacated) (hk : s.kernels[i]? = some k)
    (hs : s'.kernels = s.kernels.set i k') (hd : s'.dropped = s.dropped)
    (hk' : i ∈ s.dropped → k'.slots = k.slots) : s'.Vacated := by
  intro i' hi' kernel hkernel j
  rw [hd] at hi'
  rw [hs, List.getElem?_set] at hkernel
  split at hkernel
  · rename_i he
    subst he
    split at hkernel <;> cases hkernel
    rw [Kernel.bound?, hk' hi']
    exact hv i hi' k hk j
  · exact hv i' hi' kernel hkernel j

theorem Session.dropped_release (x : Handle) : (s.release x).dropped = s.dropped := by
  cases x <;> rfl

theorem Session.dropped_releaseAll (given : List Handle) :
    (s.releaseAll given).dropped = s.dropped := by
  induction given generalizing s with
  | nil => rfl
  | cons x given ih => exact (ih (s := s.release x)).trans (dropped_release x)

theorem Session.dropped_hold (x : Resource) : (s.hold x).dropped = s.dropped := by
  cases x <;> rfl

theorem Session.Vacated.move (hv : s.Vacated) (ha : Accounted h s)
    (hm : Session.Move frontEnd c s s') : s'.Vacated := by
  cases hm with
  | use _ _ | blits _ => exact hv.same rfl rfl
  | make _ _ | take _ _ => exact hv.same (hold_kernels _) (dropped_hold _)
  | drop x => exact hv.same (release_kernels x) (dropped_release x)
  | @dropKernel i k hk =>
    intro i' hi' kernel hkernel j
    rw [List.getElem?_set] at hkernel
    split at hkernel
    · split at hkernel <;> cases hkernel
      exact bound?_emptied k j
    · rename_i hne
      exact hv i' ((List.mem_cons.1 hi').resolve_left (Ne.symm hne)) kernel hkernel j
  | @kernel source config program log _ =>
    intro i' hi' kernel hkernel j
    rw [List.getElem?_append] at hkernel
    split at hkernel
    · exact hv i' hi' kernel hkernel j
    · rw [List.mem_singleton.1 (List.mem_of_getElem? hkernel)]
      exact bound?_fresh _ _ _ j
  | groups hk g => exact hv.set hk rfl rfl fun _ => rfl
  | @uniform i k name values _ hk =>
    refine hv.set hk rfl rfl fun _ => ?_
    exact kept_of_steps (P := fun r => r.kernel.slots = k.slots)
      (fun hu hs => hu.slots.trans hs)
      (Kernel.setUniform_steps (r := s.starting k) name values (ha.kept _ _ hk).uniforms) rfl

/-- No run reaches a kernel that was dropped. -/
theorem Session.Vacated.run (hv : s.Vacated) (args : List (Argument Handle))
    (given : List Handle) : (s.run i args given).session.Vacated := by
  rcases s.run_step i args given with ⟨-, hn⟩ | ⟨resources, k, -, hk, hr, -⟩
  · rw [hn]
    exact hv
  · rw [hr]
    refine hv.set (getElem?_of_kernel? hk) (by rw [finish, releaseAll_kernels])
      (dropped_releaseAll given) fun hi => ?_
    rw [kernel?, if_pos hi] at hk
    cases hk

/-- A kernel that was dropped refers to nothing any more. -/
theorem Reached.vacated (hs : Reached frontEnd s h) : s.Vacated := by
  induction hs with
  | @start _ _ _ _ s hs =>
    intro i _ k hk
    simp [(Session.start_empty hs).kernels] at hk
  | @perform s h hs c ih =>
    have ha : Accounted h s.quiet := hs.accounted.same rfl fun _ => rfl
    have hq : s.quiet.Vacated := ih.same rfl rfl
    by_cases hc : ∃ i args given, c = .run i args given
    · obtain ⟨i, args, given, rfl⟩ := hc
      exact hq.run args given
    · have hm : ReflTransGen (Session.Move frontEnd c) s.quiet (s.quiet.step frontEnd c).session :=
        Session.step_moves fun i args given he => hc ⟨i, args, given, he⟩
      exact (kept_of_steps (P := fun s => Session.Vacated s ∧ Accounted h s)
        (fun hm hp => ⟨hp.1.move hp.2 hm, hp.2.move hm⟩) hm ⟨hq, ha⟩).1

theorem Reached.kernel?_of_bound (hs : Reached frontEnd s h) {k : Kernel}
    (hk : s.kernels[i]? = some k) {j : Nat} {b : Bound} (hb : k.bound? j = some b) :
    s.kernel? i = some k := by
  unfold Session.kernel?
  split
  · rename_i hi
    cases (hs.vacated i hi k hk j).symm.trans hb
  · exact hk

end Sessions

end ComputeKernel
