import ComputeKernel.Proofs.Destruction
import ComputeKernel.Proofs.Refusal

/-!
# Values of uniforms

A uniform holds the values of the last write to it that was accepted, and zeros if there was none
(`Stored`). No two uniforms share a buffer and nobody else refers to one, so what a run binds, makes
and uploads leaves the uniforms alone, and a write changes no uniform but its own. On a device that
discards the writes it turns down, the work of a run on its uniforms keeps this, wherever it fails
(`Tracking.setUniforms`, `Tracking.fillUniforms`).
-/

namespace ComputeKernel

open Device Relation RunM Shader

section Values

/-- The bytes of a number as a scalar. -/
def Scalar.bytes (kind : Scalar) (x : Binary64) : List UInt8 :=
  match kind with
  | .u32 => Bytes.ofWord x.toUInt32
  | .i32 => Bytes.ofWord x.toInt32.toUInt32
  | .f32 => Bytes.ofWord x.toBinary32.bits
  | .f64 => Bytes.ofDoubleWord x.bits

/-- What a uniform holds, given its last values: these with zeros up to four, or only zeros. -/
def UniformSlot.contents (slot : UniformSlot) : Option (List Binary64) → List UInt8
  | some values =>
    (values ++ List.replicate (4 - values.length) Binary64.zero).flatMap slot.kind.bytes
  | none => List.replicate slot.byteSize 0

theorem toBytes_uniformData (slot : UniformSlot) (values : List Binary64) :
    (Kernel.uniformData slot.kind values).toBytes = slot.contents (some values) := by
  unfold Kernel.uniformData UniformSlot.contents
  cases slot.kind <;> simp only [HostData.toBytes, List.flatMap_map] <;> rfl

theorem UniformSlot.byteSize_pos (slot : UniformSlot) : 0 < slot.byteSize := by
  unfold byteSize
  cases slot.kind <;> decide

/-- Values that a uniform of a kernel was given. -/
structure UniformWrite where
  kernel : Nat
  uniform : Nat
  values : List Binary64
  deriving DecidableEq

/-- The values that a uniform was given last. -/
def lastWrite? (writes : List UniformWrite) (i j : Nat) : Option (List Binary64) :=
  (writes.reverse.find? fun w => w.kernel == i && w.uniform == j).map (·.values)

theorem lastWrite?_append (ws ws' : List UniformWrite) (i j : Nat) :
    lastWrite? (ws ++ ws') i j = (lastWrite? ws' i j).or (lastWrite? ws i j) := by
  simp [lastWrite?, Option.map_or]

theorem lastWrite?_eq_none {ws : List UniformWrite} {i j : Nat}
    (h : ∀ w ∈ ws, ¬(w.kernel = i ∧ w.uniform = j)) : lastWrite? ws i j = none := by
  simpa [lastWrite?] using h

theorem lastWrite?_snoc (ws : List UniformWrite) (w : UniformWrite) (i j : Nat) :
    lastWrite? (ws ++ [w]) i j =
      if w.kernel = i ∧ w.uniform = j then some w.values else lastWrite? ws i j := by
  rw [lastWrite?_append]
  by_cases h : w.kernel = i ∧ w.uniform = j <;> simp [lastWrite?, h]

end Values

section Storage

/-- The buffer of a uniform of a kernel. -/
def uniformAt (kernels : List Kernel) (i j : Nat) : Option Buffer :=
  kernels[i]?.bind (·.uniformBuffer? j)

/-- The slot of a uniform of a kernel. -/
def uniformSlotAt (kernels : List Kernel) (i j : Nat) : Option UniformSlot :=
  kernels[i]?.bind (·.program.layout.uniforms[j]?)

/-- The buffers of uniforms are distinct, and each holds what its uniform was given last. -/
structure Stored (kernels : List Kernel) (d : Device) (writes : List UniformWrite) : Prop where
  apart : ∀ {i j i' j' b b'}, uniformAt kernels i j = some b → uniformAt kernels i' j' = some b' →
    b.number = b'.number → i = i' ∧ j = j'
  held : ∀ {i j b slot}, uniformAt kernels i j = some b → uniformSlotAt kernels i j = some slot →
    d.bufferContents b.number = slot.contents (lastWrite? writes i j)
  unset : ∀ {i j}, uniformAt kernels i j = none → lastWrite? writes i j = none
  short : ∀ w ∈ writes, w.values.length ≤ 4

variable {kernels kernels' : List Kernel} {d d' : Device} {ws : List UniformWrite} {i j : Nat}
  {b : Buffer} {slot : UniformSlot}

theorem uniformAt_set (hi : i < kernels.length) (k : Kernel) (i' : Nat) :
    uniformAt (kernels.set i k) i' j =
      if i' = i then k.uniformBuffer? j else uniformAt kernels i' j := by
  unfold uniformAt
  by_cases h : i' = i
  · subst h
    simp [hi]
  · simp [h, List.getElem?_set_ne (Ne.symm h)]

theorem uniformSlotAt_set (hi : i < kernels.length) (k : Kernel) (i' : Nat) :
    uniformSlotAt (kernels.set i k) i' j =
      if i' = i then k.program.layout.uniforms[j]? else uniformSlotAt kernels i' j := by
  unfold uniformSlotAt
  by_cases h : i' = i
  · subst h
    simp [hi]
  · simp [h, List.getElem?_set_ne (Ne.symm h)]

/-- Whatever leaves the buffers of the uniforms and what is in them alone. -/
theorem Stored.frame (h : Stored kernels d ws)
    (hu : ∀ i j, uniformAt kernels' i j = uniformAt kernels i j)
    (hs : ∀ i j b, uniformAt kernels i j = some b →
      uniformSlotAt kernels' i j = uniformSlotAt kernels i j)
    (hm : ∀ i j b, uniformAt kernels i j = some b → d'.buffers[b.number]? = d.buffers[b.number]?) :
    Stored kernels' d' ws where
  apart hb hb' := by
    rw [hu] at hb hb'
    exact h.apart hb hb'
  held hb hslot := by
    rw [hu] at hb
    rw [hs _ _ _ hb] at hslot
    rw [bufferContents_congr (hm _ _ _ hb), h.held hb hslot]
  unset hb := h.unset (by rwa [hu] at hb)
  short := h.short

/-- A buffer of zeros is made for a uniform that has none. -/
theorem Stored.fill (h : Stored kernels d ws) (hn : uniformAt kernels i j = none)
    (hb : b.number = d.buffers.length)
    (hu : ∀ i' j', uniformAt kernels' i' j' =
      if i' = i ∧ j' = j then some b else uniformAt kernels i' j')
    (hs : ∀ i j, uniformSlotAt kernels' i j = uniformSlotAt kernels i j)
    (hslot : uniformSlotAt kernels i j = some slot)
    (hl : ∀ i j b, uniformAt kernels i j = some b → b.number < d.buffers.length) :
    Stored kernels' (d.withBuffer slot.byteSize) ws where
  apart {i₁ j₁ i₂ j₂ b₁ b₂} h₁ h₂ he := by
    rw [hu] at h₁ h₂
    split at h₁ <;> split at h₂
    · omega
    · cases h₁
      have := hl _ _ _ h₂
      omega
    · cases h₂
      have := hl _ _ _ h₁
      omega
    · exact h.apart h₁ h₂ he
  held {i₁ j₁ b₁ slot₁} h₁ hslot₁ := by
    rw [hu] at h₁
    rw [hs] at hslot₁
    split at h₁
    · rename_i hij
      obtain ⟨rfl, rfl⟩ := hij
      cases h₁
      cases hslot.symm.trans hslot₁
      rw [hb, withBuffer_contents, h.unset hn]
      rfl
    · have hlt := hl _ _ _ h₁
      rw [← h.held h₁ hslot₁]
      refine bufferContents_congr ?_
      show (d.buffers ++ [_])[b₁.number]? = _
      rw [List.getElem?_append_left hlt]
  unset {i₁ j₁} h₁ := by
    rw [hu] at h₁
    split at h₁
    · cases h₁
    · exact h.unset h₁
  short := h.short

theorem Stored.length_held (h : Stored kernels d ws) (hb : uniformAt kernels i j = some b)
    (hs : uniformSlotAt kernels i j = some slot) :
    (d.bufferContents b.number).length = slot.byteSize := by
  rw [h.held hb hs]
  rcases hl : lastWrite? ws i j with _ | values
  · simp [UniformSlot.contents]
  · obtain ⟨w, hw, rfl⟩ := Option.map_eq_some_iff.1 hl
    have hm := List.mem_reverse.1 (List.mem_of_find?_eq_some hw)
    rw [← toBytes_uniformData, Kernel.length_uniformData slot (h.short w hm)]

theorem aligned_uniformData (slot : UniformSlot) {values : List Binary64}
    (hv : values.length ≤ 4) : aligned (Kernel.uniformData slot.kind values).toBytes =
      slot.contents (some values) := by
  unfold aligned filled
  rw [Kernel.length_uniformData slot hv, Kernel.alignedSize_byteSize, Nat.sub_self,
    toBytes_uniformData, List.replicate_zero, List.append_nil]

/-- Values are written to a uniform. -/
theorem Stored.write {values : List Binary64} (h : Stored kernels d ws)
    (hb : uniformAt kernels i j = some b) (hs : uniformSlotAt kernels i j = some slot)
    (hv : values.length ≤ 4)
    (hd : d'.buffers = d.buffers.modify b.number
      (·.write (aligned (Kernel.uniformData slot.kind values).toBytes))) :
    Stored kernels d' (ws ++ [⟨i, j, values⟩]) where
  apart := h.apart
  held {i₁ j₁ b₁ slot₁} h₁ hs₁ := by
    rw [lastWrite?_snoc]
    split
    · rename_i hij
      obtain ⟨rfl, rfl⟩ := hij
      cases hb.symm.trans h₁
      cases hs.symm.trans hs₁
      have hl := h.length_held hb hs
      have hn := lt_of_bufferContents (d := d) (n := b.number) (by
        rw [hl]
        exact slot.byteSize_pos)
      have hle : (d.bufferContents b.number).length = (slot.contents (some values)).length := by
        rw [hl, ← toBytes_uniformData, Kernel.length_uniformData slot hv]
      rw [bufferContents_modify hd hn, aligned_uniformData slot hv, overwrite,
        List.drop_eq_nil_of_le (Nat.le_of_eq hle), List.append_nil]
    · rename_i hij
      have hne : b.number ≠ b₁.number := fun he => hij (h.apart hb h₁ he)
      rw [← h.held h₁ hs₁]
      exact bufferContents_congr (by simp [hd, hne])
  unset {i₁ j₁} h₁ := by
    rw [lastWrite?_snoc, if_neg, h.unset h₁]
    rintro ⟨rfl, rfl⟩
    cases hb.symm.trans h₁
  short w hw := by
    rcases List.mem_append.1 hw with hw | hw
    · exact h.short w hw
    · rw [List.mem_singleton.1 hw]
      exact hv

end Storage

section Runs

open Kernel

variable {past : List Event} {base made held pending pending' : List ResourceId}
  {kernels : List Kernel} {i j : Nat} {ws : List UniformWrite} {r r' : Running} {b : Buffer}
  {slot : UniformSlot}

/-- The buffer of a uniform is there, and nobody else refers to it. -/
theorem Sound.uniformAt {d : Device} (h : Sound past made d kernels held)
    (hb : uniformAt kernels i j = some b) :
    b.number < d.buffers.length ∧ .buffer b.number ∉ inUse kernels held := by
  obtain ⟨k, hk, hb⟩ := Option.bind_eq_some_iff.1 hb
  obtain ⟨hl, hn⟩ := h.uniforms (.buffer b.number)
    (List.mem_flatMap.2 ⟨k, List.mem_of_getElem? hk, mem_uniformIds hb⟩)
  exact ⟨(h.allocated _).2 hl.1, hn⟩

/-- A part of a run of the kernel at `i`, on a device that discards the writes it turns down. -/
structure Tracking (past : List Event) (base : List ResourceId) (kernels : List Kernel) (i : Nat)
    (held : List ResourceId) (ws : List UniformWrite) (pending : List ResourceId) (r : Running) :
    Prop where
  sound : RunSound past base (kernels.eraseIdx i) held pending r
  shaped : Shaped r.kernel
  discards : r.device.discards = true
  stored : Stored (kernels.set i r.kernel) r.device ws

theorem Tracking.uniformAt (hi : i < kernels.length)
    (h : Tracking past base kernels i held ws pending r) {i' : Nat}
    (hb : ComputeKernel.uniformAt (kernels.set i r.kernel) i' j = some b) :
    b.number < r.device.buffers.length ∧ .buffer b.number ∉ r.kernel.resources := by
  have hs := Sound.put (List.getElem?_eq_getElem hi) h.sound
  obtain ⟨hl, hn⟩ := hs.uniformAt hb
  refine ⟨hl, fun hm => hn (List.mem_append_left _ (List.mem_flatMap.2 ⟨r.kernel, ?_, hm⟩))⟩
  exact List.mem_of_getElem? (List.getElem?_set_self hi)

/-- The binding of an argument changes no buffer that was there but those in slots. -/
theorem Kernel.TurnStep.spares {t : Turn} {arg : Argument Resource} (h : TurnStep t arg r r') :
    r'.log = r.log ∧ r'.device.discards = r.device.discards ∧
      ∀ n < r.device.buffers.length, .buffer n ∉ r.kernel.resources →
        r'.device.buffers[n]? = r.device.buffers[n]? := by
  cases h with
  | lost h => exact ⟨rfl, discards_of_setup h.grows.setup, fun n hn _ => h.grows.getElem? hn⟩
  | @fill x d _ h =>
    obtain ⟨hl, hs, hb⟩ := replaced_frame t ⟨x, .owned⟩ { r with device := d }
    exact ⟨hl, discards_of_setup (hs.trans h.grows.setup), fun n hn _ => by
      rw [hb]
      exact h.grows.getElem? hn⟩
  | write hb h =>
    refine ⟨rfl, h.spares.discards, fun n _ hn => h.spares.buffers n fun hm => hn ?_⟩
    rw [List.mem_singleton.1 hm]
    exact mem_resources hb
  | @adopt x _ =>
    obtain ⟨hl, hs, hb⟩ := replaced_frame t ⟨x, .borrowed⟩ r
    exact ⟨hl, discards_of_setup hs, fun n _ _ => by rw [hb]⟩

/-- Whatever leaves the uniforms of the kernel and all buffers alone that are in none of its
slots. -/
theorem Tracking.frame (hi : i < kernels.length)
    (h : Tracking past base kernels i held ws pending r)
    (hs : RunSound past base (kernels.eraseIdx i) held pending' r') (hr : Shaped r'.kernel)
    (hd : r'.device.discards = r.device.discards)
    (hp : r'.kernel.program = r.kernel.program)
    (hu : r'.kernel.uniformBuffers = r.kernel.uniformBuffers)
    (hm : ∀ n < r.device.buffers.length, .buffer n ∉ r.kernel.resources →
      r'.device.buffers[n]? = r.device.buffers[n]?) :
    Tracking past base kernels i held ws pending' r' where
  sound := hs
  shaped := hr
  discards := hd.trans h.discards
  stored := by
    refine h.stored.frame (fun i' j => ?_) (fun i' j b _ => ?_) fun i' j b hb => ?_
    · simp only [uniformAt_set hi, uniformBuffer?, hu]
    · simp only [uniformSlotAt_set hi, hp]
    · obtain ⟨hl, hn⟩ := h.uniformAt hi hb
      exact hm _ hl hn

theorem Tracking.turn {t : Turn} {arg : Argument Resource} (hi : i < kernels.length)
    (ht : t.others = (kernels.eraseIdx i).flatMap Kernel.resources ++ held)
    (hs : TurnStep t arg r r')
    (h : Tracking past base kernels i held ws (argumentIds [arg] ++ t.pending) r) :
    Tracking past base kernels i held ws (argumentIds [arg] ++ t.pending) r' := by
  obtain ⟨-, hd, hm⟩ := hs.spares
  obtain ⟨slots, hk⟩ := hs.kernel
  exact h.frame hi (hs.sound ht h.sound) (hs.prepares.shaped h.shaped) hd (by rw [hk])
    (by rw [hk]) hm

theorem Tracking.pipeline (hi : i < kernels.length)
    (h : Tracking past base kernels i held ws pending r) :
    Tracking past base kernels i held ws pending (endState (ensurePipeline r)) := by
  obtain ⟨⟨p, hk⟩, hsetup, hb, -⟩ := ensurePipeline_frame (r := r) rfl
  exact h.frame hi h.sound.pipeline ((prepares_pipeline r).shaped h.shaped)
    (discards_of_setup hsetup) (by rw [hk]) (by rw [hk])
    fun n _ _ => by rw [hb]

theorem Tracking.launch {p : Pipeline} {es : List Event} {made : List (String × BindGroup)}
    (hi : i < kernels.length) (h : Tracking past base kernels i held ws pending r)
    (hl : Launches p es made r r') : Tracking past base kernels i held ws pending r' := by
  obtain ⟨_, _, _, hk⟩ := hl.kernel
  exact h.frame hi (h.sound.launch hl) hl.coherent.toShaped (discards_of_setup hl.setup)
    (by rw [hk]) (by rw [hk]) fun n _ _ => by rw [hl.memory.1]

theorem Tracking.mono (hsub : ∀ id ∈ pending', id ∈ pending)
    (h : Tracking past base kernels i held ws pending r) :
    Tracking past base kernels i held ws pending' r :=
  { h with sound := h.sound.mono hsub }

/-- A buffer that was made in vain changes nothing. -/
theorem Tracking.lost {x : Resource} {d : Device} (hi : i < kernels.length)
    (h : Tracking past base kernels i held ws pending r) (hc : Creates r.device x d) :
    Tracking past base kernels i held ws pending { r with device := d } :=
  h.frame hi (h.sound.create hc).1 h.shaped (discards_of_setup hc.grows.setup) rfl rfl
    fun _ hn _ => hc.grows.getElem? hn

/-- The kernel with a buffer for one of its uniforms. -/
def Kernel.withUniform (k : Kernel) (j : Nat) (b : Buffer) : Kernel :=
  { k with uniformBuffers := k.uniformBuffers.set j (some b) }

theorem uniformBuffer?_withUniform {k : Kernel} (hj : j < k.uniformBuffers.length) (j' : Nat) :
    (k.withUniform j b).uniformBuffer? j' =
      if j' = j then some b else k.uniformBuffer? j' := by
  unfold withUniform uniformBuffer?
  by_cases h : j' = j
  · subst h
    simp [hj]
  · simp [h, List.getElem?_set_ne (Ne.symm h)]

/-- The buffer of a uniform is found, or made with zeros in it, or the device fails. -/
theorem Tracking.ensureUniform (hi : i < kernels.length)
    (h : Tracking past base kernels i held ws pending r)
    (hs : r.kernel.program.layout.uniforms[j]? = some slot) :
    (∃ f r', ensureUniform j slot r = .error f r' ∧ r'.log = r.log ∧
        r'.kernel = r.kernel ∧ Tracking past base kernels i held ws pending r') ∨
      ∃ b r', ensureUniform j slot r = .ok b r' ∧ r'.log = r.log ∧
        (r.kernel.uniformBuffer? j = some b ∧ r'.kernel = r.kernel ∨
          r.kernel.uniformBuffer? j = none ∧ r'.kernel = r.kernel.withUniform j b) ∧
        Tracking past base kernels i held ws pending r' := by
  have hj : j < r.kernel.uniformBuffers.length := by
    rw [h.shaped.uniforms]
    exact (List.getElem?_eq_some_iff.1 hs).1
  rcases ensureUniform_cases j slot r with
    ⟨b, hb, he⟩ | ⟨hn, ⟨f, he⟩ | ⟨f, he⟩ | he⟩
  · exact .inr ⟨b, r, he, rfl, .inl ⟨hb, rfl⟩, h⟩
  · exact .inl ⟨f, r, he, rfl, rfl, h⟩
  · exact .inl ⟨f, _, he, rfl, rfl, h.lost hi (.buffer _)⟩
  · let b : Buffer := ⟨r.device.buffers.length, slot.byteSize⟩
    have hstep : UniformStep r _ := .fill hj hn hs rfl (.buffer slot.byteSize)
    refine .inr ⟨b, _, he, rfl, .inr ⟨hn, rfl⟩, h.sound.uniform hstep,
      hstep.prepares.shaped h.shaped, h.discards, ?_⟩
    refine h.stored.fill (i := i) (j := j) (b := b) ?_ rfl (fun i' j' => ?_) (fun i' j' => ?_) ?_
      fun i' j' b' hb' => (h.uniformAt hi hb').1
    · rw [uniformAt_set hi, if_pos rfl, hn]
    · rw [uniformAt_set hi, uniformAt_set hi]
      by_cases hij : i' = i
      · simp only [hij, if_true, true_and]
        exact uniformBuffer?_withUniform hj j'
      · simp [hij]
    · simp only [uniformSlotAt_set hi]
    · rw [uniformSlotAt_set hi, if_pos rfl, hs]

/-- Values that are sent to the buffer of their uniform are what it was given last, or the device
turned them down and nothing has changed. -/
theorem Tracking.upload {values : List Binary64} (hi : i < kernels.length)
    (h : Tracking past base kernels i held ws pending r)
    (hb : r.kernel.uniformBuffer? j = some b)
    (hs : r.kernel.program.layout.uniforms[j]? = some slot) (hv : values.length ≤ 4) :
    (∃ f d, uploadBuffer b (uniformData slot.kind values).toBytes r.device = .error f d ∧
        Tracking past base kernels i held ws pending { r with device := d }) ∨
      ∃ d, uploadBuffer b (uniformData slot.kind values).toBytes r.device = .ok () d ∧
        Tracking past base kernels i held (ws ++ [⟨i, j, values⟩]) pending
          { r with device := d } := by
  have hb' : ComputeKernel.uniformAt (kernels.set i r.kernel) i j = some b := by
    rw [uniformAt_set hi, if_pos rfl, hb]
  have hs' : uniformSlotAt (kernels.set i r.kernel) i j = some slot := by
    rw [uniformSlotAt_set hi, if_pos rfl, hs]
  have hw : ∀ {d}, endState (uploadBuffer b (uniformData slot.kind values).toBytes r.device) = d →
      d.discards = r.device.discards ∧
        RunSound past base (kernels.eraseIdx i) held pending { r with device := d } := by
    rintro d rfl
    rcases uploadBuffer_end b (uniformData slot.kind values).toBytes r.device with he | hw
    · rw [he]
      exact ⟨rfl, h.sound⟩
    · refine ⟨hw.spares.discards, h.sound.uses hw.uses fun id hid => ?_⟩
      rw [List.mem_singleton.1 hid]
      exact (h.sound.uniforms _ (List.mem_append_left _ (mem_uniformIds hb))).1
  rcases hu : uploadBuffer b (uniformData slot.kind values).toBytes r.device with
    ⟨_, d⟩ | ⟨f, d⟩ <;> rw [hu] at hw <;> obtain ⟨hd, hsound⟩ := hw rfl
  · refine .inr ⟨d, rfl, hsound, h.shaped, hd.trans h.discards, ?_⟩
    have hm := uploadBuffer_ok hu
    rw [if_neg] at hm
    · exact h.stored.write hb' hs' hv hm
    · rw [← List.length_eq_zero_iff, length_uniformData slot hv]
      exact Nat.ne_of_gt slot.byteSize_pos
  · refine .inl ⟨f, d, rfl, hsound, h.shaped, hd.trans h.discards, ?_⟩
    exact h.stored.frame (fun _ _ => rfl) (fun _ _ _ _ => rfl) fun _ _ _ _ => by
      rw [uploadBuffer_discarded h.discards hu]

/-- Values for a uniform are accepted and are what it was given last, or nothing has changed. -/
theorem Tracking.setUniform (hi : i < kernels.length)
    (h : Tracking past base kernels i held ws pending r) (name : String) (values : List Binary64) :
    (∃ f r', setUniform name values r = .error f r' ∧ r'.log = r.log ∧
        Tracking past base kernels i held ws pending r') ∨
      ∃ j slot r', r.kernel.uniform? name = .ok (j, slot) ∧ setUniform name values r = .ok () r' ∧
        r'.log = r.log ∧ Tracking past base kernels i held (ws ++ [⟨i, j, values⟩]) pending r' := by
  rcases setUniform_cases name values r with ⟨f, he⟩ | ⟨j, slot, hu, hv, hr⟩
  · exact .inl ⟨_, r, he, rfl, h⟩
  have hs := uniform?_getElem hu
  rcases h.ensureUniform hi hs with ⟨f, r₁, he, hl, -, h₁⟩ | ⟨b, r₁, he, hl, hk, h₁⟩ <;>
    rcases hr with ⟨f', r', he', hr⟩ | ⟨b', r', he', hr⟩ <;> cases he.symm.trans he'
  · exact .inl ⟨f, r₁, hr, hl, h₁⟩
  have hj : j < r.kernel.uniformBuffers.length := by
    rw [h.shaped.uniforms]
    exact (List.getElem?_eq_some_iff.1 hs).1
  have hb : r₁.kernel.uniformBuffer? j = some b ∧ r₁.kernel.program = r.kernel.program := by
    rcases hk with ⟨hb, hk⟩ | ⟨-, hk⟩ <;> rw [hk]
    · exact ⟨hb, rfl⟩
    · exact ⟨by rw [uniformBuffer?_withUniform hj, if_pos rfl], rfl⟩
  rcases h₁.upload hi hb.1 (hb.2 ▸ hs) hv with ⟨f, d, hd, h₂⟩ | ⟨d, hd, h₂⟩
  · exact .inl ⟨f, _, hr.trans (onDevice_of_error hd), hl, h₂⟩
  · exact .inr ⟨j, slot, _, hu, hr.trans (onDevice_of_ok hd), hl, h₂⟩

/-- The values for uniforms of the kernel at `i` that are accepted, up to the first that are not. -/
def acceptedWrites (i : Nat) : List (String × List Binary64) → Running → List UniformWrite
  | [], _ => []
  | (name, values) :: rest, r =>
    match Kernel.setUniform name values r, r.kernel.uniform? name with
    | .ok _ r', .ok (j, _) => ⟨i, j, values⟩ :: acceptedWrites i rest r'
    | _, _ => []

theorem Tracking.setUniforms (hi : i < kernels.length) (values : List (String × List Binary64))
    {ws : List UniformWrite} {r : Running} (h : Tracking past base kernels i held ws pending r) :
    (endState (Kernel.setUniforms values r)).log = r.log ∧
      Tracking past base kernels i held (ws ++ acceptedWrites i values r) pending
        (endState (Kernel.setUniforms values r)) := by
  induction values generalizing ws r with
  | nil =>
    rw [acceptedWrites, List.append_nil]
    exact ⟨rfl, h⟩
  | cons v values ih =>
    obtain ⟨name, values'⟩ := v
    unfold Kernel.setUniforms acceptedWrites
    rcases h.setUniform hi name values' with ⟨f, r', he, hl, h'⟩ | ⟨j, slot, r', hu, he, hl, h'⟩
    · rw [bind_of_error he]
      simp only [he]
      rw [List.append_nil]
      exact ⟨hl, h'⟩
    · rw [bind_of_ok he]
      obtain ⟨hl', h''⟩ := ih h'
      simp only [hu, he]
      rw [List.append_assoc] at h''
      exact ⟨hl'.trans hl, h''⟩

/-- The uniforms that have no buffer, with their positions. -/
def Kernel.unset (k : Kernel) : List (UniformSlot × Nat) :=
  k.program.layout.uniforms.zipIdx.filter fun u => (k.uniformBuffer? u.2).isNone

theorem fillUniforms_prepares {slots : List UniformSlot} (hs : Shaped r.kernel)
    (hu : r.kernel.program.layout.uniforms.drop j = slots) :
    Prepares r (endState (Kernel.fillUniforms j slots r)) := by
  rcases fillUniforms_steps slots hs.uniforms hu with ⟨f, r', h, -, hr⟩ | ⟨r', h, hr, -⟩ <;>
    rw [h] <;> exact prepares_of_steps hr

/-- The making of the buffers of uniforms warns of those that have none, one after the other. The
last of them is left without one if the device fails. -/
theorem Tracking.fillUniforms (hi : i < kernels.length) (slots : List UniformSlot) {j : Nat}
    {r : Running} (h : Tracking past base kernels i held ws pending r)
    (hs : r.kernel.program.layout.uniforms.drop j = slots) :
    Tracking past base kernels i held ws pending (endState (Kernel.fillUniforms j slots r)) ∧
      ∃ warned, (endState (Kernel.fillUniforms j slots r)).log =
          r.log ++ warned.map (fun u => unsetLine u.1) ∧
        warned <+: (slots.zipIdx j).filter (fun u => (r.kernel.uniformBuffer? u.2).isNone) ∧
        (∀ u ∈ warned.dropLast,
          ((endState (Kernel.fillUniforms j slots r)).kernel.uniformBuffer? u.2).isSome) ∧
        ∀ r', Kernel.fillUniforms j slots r = .ok () r' →
          warned = (slots.zipIdx j).filter fun u => (r.kernel.uniformBuffer? u.2).isNone := by
  induction slots generalizing j r with
  | nil => exact ⟨h, [], (List.append_nil _).symm, by simp, by simp, by simp⟩
  | cons slot slots ih =>
    have hu : r.kernel.program.layout.uniforms[j]? = some slot := by
      rw [← List.head?_drop, hs]
      rfl
    have hj : j < r.kernel.uniformBuffers.length := by
      rw [h.shaped.uniforms]
      exact (List.getElem?_eq_some_iff.1 hu).1
    have hs' : r.kernel.program.layout.uniforms.drop (j + 1) = slots := by
      rw [← List.drop_drop, hs]
      rfl
    unfold Kernel.fillUniforms
    rw [get_bind]
    rcases hb : r.kernel.uniformBuffer? j with _ | b
    · simp only [Option.isNone_none, if_true]
      rw [modify_bind, List.zipIdx_cons, List.filter_cons_of_pos (by simp [hb])]
      have hn : Tracking past base kernels i held ws pending
          { r with log := r.log ++ [unsetLine slot] } := { h with }
      rcases hn.ensureUniform hi hu with ⟨f, r₁, he, hl, -, h₁⟩ | ⟨b, r₁, he, hl, hk, h₁⟩
      · rw [bind_of_error he]
        exact ⟨h₁, [(slot, j)], by simpa using hl, by simp, by simp, by simp⟩
      rw [bind_of_ok he]
      have hk : r₁.kernel = r.kernel.withUniform j b := by
        rcases hk with ⟨hb', -⟩ | ⟨-, hk⟩
        · cases hb.symm.trans hb'
        · exact hk
      have hs₁ : r₁.kernel.program.layout.uniforms.drop (j + 1) = slots := by
        rw [hk]
        exact hs'
      -- The uniforms after this one have a buffer now if they had one before.
      have hrest : (slots.zipIdx (j + 1)).filter (fun u => (r₁.kernel.uniformBuffer? u.2).isNone) =
          (slots.zipIdx (j + 1)).filter fun u => (r.kernel.uniformBuffer? u.2).isNone := by
        refine List.filter_congr fun u hu => ?_
        have hlt := List.le_snd_of_mem_zipIdx hu
        rw [hk, uniformBuffer?_withUniform hj, if_neg (by omega)]
      obtain ⟨h', warned, hl', hw, hf, hall⟩ := ih h₁ hs₁
      rw [hrest] at hw hall
      refine ⟨h', (slot, j) :: warned, ?_, ?_, ?_, fun r' hr' => by rw [hall r' hr']⟩
      · rw [hl', hl, List.append_assoc]
        rfl
      · rwa [List.prefix_cons_inj]
      · intro u hm
        rcases warned with _ | ⟨v, warned⟩
        · simp at hm
        rcases List.mem_cons.1 hm with rfl | hm
        · have hb₁ : r₁.kernel.uniformBuffer? j = some b := by
            rw [hk, uniformBuffer?_withUniform hj, if_pos rfl]
          rw [(fillUniforms_prepares h₁.shaped hs₁).uniforms j b hb₁]
          rfl
        · exact hf u hm
    · simp only [Option.isNone_some, Bool.false_eq_true, if_false]
      rw [List.zipIdx_cons, List.filter_cons_of_neg (by simp [hb])]
      exact ih h hs'

variable {args : List (Argument Resource)}

/-- The values that a run gives to uniforms, and the state in which it starts to do so, if it gets
there. -/
def uniformWork? (others : List ResourceId) (args : List (Argument Resource)) (r : Running) :
    Option (List (String × List Binary64) × Running) :=
  match r.kernel.checkRun args, ensurePipeline r with
  | .ok (run, groups), .ok _ r₁ =>
    match bindAll others groups 0 r₁.kernel.program.layout.params run.params r₁ with
    | .ok _ r₂ => some ((run.uniforms.map (·.entries)).getD [], r₂)
    | .error _ _ => none
  | _, _ => none

/-- The state of a run that starts to make buffers for the uniforms that have none. -/
def filling? (others : List ResourceId) (args : List (Argument Resource)) (r : Running) :
    Option Running :=
  match uniformWork? others args r with
  | some (values, r₁) =>
    match Kernel.setUniforms values r₁ with
    | .ok _ r₂ => some r₂
    | .error _ _ => none
  | none => none

/-- The values for uniforms of the kernel at `i` that a run gets accepted. -/
def runWrites (i : Nat) (others : List ResourceId) (args : List (Argument Resource))
    (r : Running) : List UniformWrite :=
  match uniformWork? others args r with
  | some (values, r₁) => acceptedWrites i values r₁
  | none => []

/-- What a run warns of: uniforms that have no buffer when it makes them one, one after the other.
Only the last one may be left without. A run that gets on warns of all of them. -/
structure Warns (filling : Option Running) (warned : List (UniformSlot × Nat))
    (buffer? : Nat → Option Buffer) (prepared : Prop) : Prop where
  reached : filling = none → warned = []
  unset : ∀ r, filling = some r → warned <+: r.kernel.unset
  filled : ∀ u ∈ warned.dropLast, (buffer? u.2).isSome
  all : prepared → ∃ r, filling = some r ∧ warned = r.kernel.unset ∧
    ∀ u ∈ warned, (buffer? u.2).isSome

theorem Warns.nil {buffer? : Nat → Option Buffer} {prepared : Prop} (h : ¬prepared) :
    Warns none [] buffer? prepared where
  reached _ := rfl
  unset _ _ := List.nil_prefix
  filled := by simp
  all hp := absurd hp h

theorem Tracking.bindAll {slots : List ParamSlot} {index : Nat} {others : List ResourceId}
    (groups : Extent) (hi : i < kernels.length)
    (h : Tracking past base kernels i held ws (argumentIds args) r)
    (ho : others = (kernels.eraseIdx i).flatMap Kernel.resources ++ held)
    (hn : index + slots.length ≤ r.kernel.slots.length) :
    (endState (Kernel.bindAll others groups index slots args r)).log = r.log ∧
      Tracking past base kernels i held ws []
        (endState (Kernel.bindAll others groups index slots args r)) := by
  rcases bindAll_turns others groups slots args index r with he | ⟨pending, ht⟩
  · rw [he]
    exact ⟨rfl, h.mono (by simp)⟩
  · obtain ⟨hl, ht⟩ := turns_keep
      (I := fun pending r' => r'.log = r.log ∧ Tracking past base kernels i held ws pending r')
      (fun hsub h => ⟨h.1, h.2.mono hsub⟩)
      (fun ht hs h => ⟨hs.spares.1.trans h.1, h.2.turn hi (ht.trans ho) hs⟩) slots args index r hn
      ⟨rfl, h⟩ _ ht
    exact ⟨hl, ht.mono (by simp)⟩

theorem snd_lt_of_mem_unset {k : Kernel} {u : UniformSlot × Nat} (hu : u ∈ k.unset) :
    u.2 < k.program.layout.uniforms.length := by
  obtain ⟨slot, j⟩ := u
  have hz := List.mk_mem_zipIdx_iff_getElem?.1 (List.mem_of_mem_filter hu)
  exact (List.getElem?_eq_some_iff.1 hz).1

/-- What a run does once its arguments are bound. -/
theorem Tracking.uniforms {slots : List UniformSlot} (hi : i < kernels.length)
    (h : Tracking past base kernels i held ws [] r) (values : List (String × List Binary64))
    (hs : r.kernel.program.layout.uniforms = slots) {x : EStateM.Result Failure Running Unit}
    (hx : (do Kernel.setUniforms values; Kernel.fillUniforms 0 slots : RunM Unit) r = x) :
    Tracking past base kernels i held (ws ++ acceptedWrites i values r) [] (endState x) ∧
      ∃ warned, (endState x).log = r.log ++ warned.map (fun u => unsetLine u.1) ∧
        Warns (match Kernel.setUniforms values r with
          | .ok _ r₁ => some r₁
          | .error _ _ => none)
          warned (endState x).kernel.uniformBuffer? (∃ r', x = .ok () r') := by
  subst hx
  obtain ⟨hl₁, h₁⟩ := h.setUniforms hi values
  have hp := prepares_of_steps (setUniforms_steps values h.shaped.uniforms)
  rcases hr : Kernel.setUniforms values r with ⟨_, r₁⟩ | ⟨f, r₁⟩ <;>
    simp only [hr, endState_ok, endState_error] at hl₁ h₁ hp
  · rw [bind_of_ok hr]
    have hu : r₁.kernel.program.layout.uniforms.drop 0 = slots := by
      rw [hp.program, List.drop_zero, hs]
    obtain ⟨h₂, warned, hl₂, hw, hf, hall⟩ := Tracking.fillUniforms hi slots h₁ hu
    have hun : slots.zipIdx.filter (fun u => (r₁.kernel.uniformBuffer? u.2).isNone) =
        r₁.kernel.unset := by
      rw [← hu]
      rfl
    rw [hun] at hw hall
    refine ⟨h₂, warned, by rw [hl₂, hl₁], by simp, ?_, hf, ?_⟩
    · rintro _ ⟨⟩
      exact hw
    · rintro ⟨r', hr'⟩
      refine ⟨r₁, rfl, hall r' hr', fun u hu' => ?_⟩
      have hlt := snd_lt_of_mem_unset (hall r' hr' ▸ hu')
      rcases fillUniforms_steps slots h₁.shaped.uniforms hu with ⟨f, r₂, hf, -⟩ | ⟨r₂, hf, -, hj⟩
      · cases hf.symm.trans hr'
      · rw [hf]
        refine hj u.2 (Nat.zero_le _) ?_
        rw [Nat.zero_add, ← hu]
        exact hlt
  · rw [bind_of_error hr]
    exact ⟨h₁, [], by simpa using hl₁, .nil (by simp)⟩

/-- The states that come before the work on uniforms. -/
theorem Tracking.before {x : EStateM.Result Failure Running (Pipeline × Extent)} {f : Failure}
    (h : Tracking past base kernels i held ws pending r') (hl : r'.log = r.log)
    (hx : x = .error f r') :
    Tracking past base kernels i held (ws ++ []) [] (endState x) ∧
      ∃ warned, (endState x).log = r.log ++ warned.map (fun u => unsetLine u.1) ∧
        Warns none warned (endState x).kernel.uniformBuffer? (∃ a r', x = .ok a r') := by
  subst hx
  rw [List.append_nil]
  exact ⟨h.mono (by simp), [], by simpa using hl, .nil (by simp)⟩

/-- A run before its bind groups. -/
theorem Tracking.prepare {others : List ResourceId} (hi : i < kernels.length)
    (h : Tracking past base kernels i held ws (argumentIds args) r)
    (ho : others = (kernels.eraseIdx i).flatMap Kernel.resources ++ held)
    {x : EStateM.Result Failure Running (Pipeline × Extent)}
    (hx : Kernel.prepare others args r = x) :
    Tracking past base kernels i held (ws ++ runWrites i others args r) [] (endState x) ∧
      ∃ warned, (endState x).log = r.log ++ warned.map (fun u => unsetLine u.1) ∧
        Warns (filling? others args r) warned (endState x).kernel.uniformBuffer?
          (∃ a r', x = .ok a r') := by
  unfold filling? runWrites uniformWork?
  have hp := h.pipeline hi
  have hl : (endState (ensurePipeline r)).log = r.log := by
    rcases ensurePipeline_cases r with ⟨p, -, he⟩ | ⟨-, ⟨f, he⟩ | ⟨l, -, ⟨m, he⟩ | he⟩⟩ <;>
      rw [he] <;> rfl
  rcases prepare_cases others args r with
    ⟨f, hc, hr⟩ | ⟨run, groups, hc, ⟨f, r₁, he, hr⟩ | ⟨p, r₁, he, hr⟩⟩
  · simp only [hc]
    exact h.before rfl (hx.symm.trans hr)
  · rw [he, endState_error] at hp hl
    simp only [hc, he]
    exact hp.before hl (hx.symm.trans hr)
  rw [he, endState_ok] at hp hl
  simp only [hc, he]
  have hargs : ∀ id ∈ argumentIds run.params, id ∈ argumentIds args := by
    rw [(split_params (checkRun_eq_ok hc).1).1]
    exact (List.Sublist.filterMap _ (List.take_sublist _ _)).subset
  have hn : 0 + r₁.kernel.program.layout.params.length ≤ r₁.kernel.slots.length := by
    have := hp.shaped.slots
    omega
  obtain ⟨hl₁, h₁⟩ := (hp.mono hargs).bindAll groups hi ho hn
  have hp₁ : Prepares r₁ (endState (Kernel.bindAll others groups 0
    r₁.kernel.program.layout.params run.params r₁)) := bindAll_prepares hn
  have hbind : bindRun others groups run r₁ = (do
      Kernel.bindAll others groups 0 r₁.kernel.program.layout.params run.params
      Kernel.setUniforms ((run.uniforms.map (·.entries)).getD [])
      Kernel.fillUniforms 0 r₁.kernel.program.layout.uniforms : RunM Unit) r₁ := rfl
  rcases hb : Kernel.bindAll others groups 0 r₁.kernel.program.layout.params run.params r₁ with
    ⟨_, r₂⟩ | ⟨f, r₂⟩ <;> simp only [hb, endState_ok, endState_error] at hl₁ h₁ hp₁ ⊢
  · rw [bind_of_ok hb] at hbind
    obtain ⟨h₂, warned, hl₂, hw⟩ := h₁.uniforms hi _ (by rw [hp₁.program]) hbind.symm
    rcases hr with ⟨f', r', hb', hr⟩ | ⟨r', hb', hr⟩ <;> cases hr.symm.trans hx <;>
      simp only [hb', endState_ok, endState_error] at h₂ hl₂ hw
    · exact ⟨h₂, warned, by rw [endState_error, hl₂, hl₁, hl],
        { hw with all := fun ⟨_, _, he⟩ => by cases he }⟩
    · exact ⟨h₂, warned, by rw [endState_ok, hl₂, hl₁, hl],
        { hw with all := fun _ => hw.all ⟨r', rfl⟩ }⟩
  · rw [bind_of_error hb] at hbind
    rcases hr with ⟨f', r', hb', hr⟩ | ⟨r', hb', hr⟩ <;> cases hbind.symm.trans hb'
    exact h₁.before (hl₁.trans hl) (hx.symm.trans hr)

/-- A buffer of a uniform is still there when a run makes buffers for those that have none. -/
theorem filling?_prepares {others : List ResourceId} (hs : Shaped r.kernel)
    (h : filling? others args r = some r') : Prepares r r' := by
  unfold filling? uniformWork? at h
  have hp := prepares_pipeline r
  rcases hc : r.kernel.checkRun args with f | ⟨run, groups⟩ <;> simp only [hc] at h
  · cases h
  rcases he : ensurePipeline r with ⟨p, r₁⟩ | ⟨f, r₁⟩ <;> simp only [he] at h hp
  swap
  · cases h
  rw [endState_ok] at hp
  have hn : 0 + r₁.kernel.program.layout.params.length ≤ r₁.kernel.slots.length := by
    have := (hp.shaped hs).slots
    omega
  have hb : Prepares r₁ (endState (Kernel.bindAll others groups 0
    r₁.kernel.program.layout.params run.params r₁)) := bindAll_prepares hn
  rcases hr : Kernel.bindAll others groups 0 r₁.kernel.program.layout.params run.params r₁ with
    ⟨_, r₂⟩ | ⟨f, r₂⟩ <;> simp only [hr] at h hb
  swap
  · cases h
  rw [endState_ok] at hb
  have hp₂ := hp.trans hb
  have hu := prepares_of_steps (setUniforms_steps ((run.uniforms.map (·.entries)).getD [])
    (hp₂.shaped hs).uniforms)
  split at h <;> cases h
  rename_i hset
  rw [hset] at hu
  exact hp₂.trans hu

/-- A whole run, wherever it fails. -/
theorem Tracking.run {others : List ResourceId} (hi : i < kernels.length) (hc : Coherent r.kernel)
    (h : Tracking past base kernels i held ws (argumentIds args) r)
    (ho : others = (kernels.eraseIdx i).flatMap Kernel.resources ++ held) :
    Tracking past base kernels i held (ws ++ runWrites i others args r) []
        (endState (Kernel.run others args r)) ∧
      ∃ warned, (endState (Kernel.run others args r)).log =
          r.log ++ warned.map (fun u => unsetLine u.1) ∧
        Warns (filling? others args r) warned
          (endState (Kernel.run others args r)).kernel.uniformBuffer?
          (∃ a r', Kernel.prepare others args r = .ok a r') := by
  rcases run_cases others args hc with
    ⟨f, r', hr, hx, -⟩ | ⟨p, groups, r₁, es, hr, -, -, -, hl, -⟩ <;>
    obtain ⟨hp, warned, hlog, hw⟩ := h.prepare hi ho hr
  · rw [hx, hr]
    exact ⟨hp, warned, hlog, hw⟩
  · have hl := hl.launches
    obtain ⟨_, _, _, hk⟩ := hl.kernel
    refine ⟨hp.launch hi hl, warned, hl.log.trans hlog, ?_⟩
    have hu : (endState (Kernel.run others args r)).kernel.uniformBuffer? =
        r₁.kernel.uniformBuffer? := by
      rw [hk]
      rfl
    rw [hr, hu]
    exact hw

end Runs

end ComputeKernel
