import ComputeKernel.Proofs.Typing

/-!
# Room for uploads

Whatever a run or a uniform uploads goes to a buffer that the kernel refers to and has room there,
also with the zeros that fill it up (`Within`). Each turn uploads to its own slot (`bind_within`),
no later turn touches that slot again, and the buffer of a uniform is as large as its values
(`UniformStep.within`). For the same reason an upload is never found to be too large, and a run that
is given what it asks for never fails because of what is in its slots (`bind_isInternal`).
-/

namespace ComputeKernel

open Device Relation RunM Shader

section Traces

variable {P Q : Event → Prop} {d d₁ d₂ : Device}

/-- All that was asked of a device on the way from `d` to `d'`. -/
def Emits (P : Event → Prop) (d d' : Device) : Prop :=
  ∃ es, d'.events = d.events ++ es ∧ ∀ e ∈ es, P e

theorem Emits.of_eq (h : d₁.events = d.events) : Emits P d d₁ := ⟨[], by simp [h], by simp⟩

theorem Emits.single {e : Event} (h : d₁.events = d.events ++ [e]) (he : P e) : Emits P d d₁ :=
  ⟨[e], h, by simpa using he⟩

theorem Emits.trans (h : Emits P d d₁) (h' : Emits P d₁ d₂) : Emits P d d₂ := by
  obtain ⟨es, he, hP⟩ := h
  obtain ⟨es', he', hP'⟩ := h'
  refine ⟨es ++ es', by rw [he', he, List.append_assoc], ?_⟩
  intro e hm
  rcases List.mem_append.1 hm with hm | hm
  · exact hP e hm
  · exact hP' e hm

theorem Emits.mono (h : Emits P d d₁) (hPQ : ∀ e, P e → Q e) : Emits Q d d₁ := by
  obtain ⟨es, he, hP⟩ := h
  exact ⟨es, he, fun e hm => hPQ e (hP e hm)⟩

/-- If an event writes to a buffer, it is one of some buffers and has room for all that is written.
-/
def Within (B : Buffer → Prop) (e : Event) : Prop :=
  ∀ n bytes, e = .writeBuffer n bytes → ∃ b, B b ∧ b.number = n ∧ bytes.length ≤ b.size

variable {B B' : Buffer → Prop} {x : Resource}

theorem Within.mono {e : Event} (h : Within B e) (hB : ∀ b, B b → B' b) : Within B' e := by
  intro n bytes he
  obtain ⟨b, hb, hr⟩ := h n bytes he
  exact ⟨b, hB b hb, hr⟩

theorem Device.Creates.within (h : Creates d x d₁) : Emits (Within B) d d₁ := by
  obtain ⟨e, he, hx⟩ := h.events
  refine .single he ?_
  rintro n bytes rfl
  cases hx

/-- What is filled up with zeros has room in a buffer whose size is a multiple of four. -/
theorem within_aligned {b : Buffer} {bytes : List UInt8} (hb : B b) (hs : 0 < b.size ∧ 4 ∣ b.size)
    (hl : bytes.length ≤ b.size) : Within B (.writeBuffer b.number (aligned bytes)) := by
  rintro n bytes' ⟨⟩
  refine ⟨b, hb, rfl, ?_⟩
  rw [length_aligned]
  have := alignedSize_le hs.1 hs.2 hl
  omega

end Traces

namespace Kernel

section Faults

/-- The misuses that are found before an argument gets to the place where they would do harm. -/
def isInternalMisuse : UsageFault → Bool
  | .unbindableArgument .. | .uploadTooLong .. | .uploadTooWide .. => true
  | .ofParameter _ f => isInternalMisuse f
  | _ => false

/-- The failures that a run is prepared for and never has. -/
def isInternal : Failure → Bool
  | .usage f => isInternalMisuse f
  | .backend (.emptySlot _) => true
  | _ => false

variable {f : Failure} {slot : ParamSlot} {arg : Argument Resource} {k : Kernel} {groups : Extent}
  {b : Option Bound} {ask : Work Resource} {send : Work Unit} {x : Resource} {d d' : Device}

theorem isInternal_of_fault (h : Fault f) : isInternal f = false := by
  cases h <;> rfl

theorem isInternal_of_texels {image : Image} {format : ImageFormat}
    (h : image.texels format = .error f) : isInternal f = false := by
  rcases Image.texels_eq_error h with ⟨-, rfl⟩ | ⟨-, rfl⟩ | ⟨-, rfl⟩ <;> rfl

theorem isInternal_failureOf (name : String) (f : Failure) :
    isInternal (failureOf name f) = isInternal f := by
  cases f with
  | usage fault => rw [failureOf, isInternal, isInternalMisuse, isInternal]
  | _ => rfl

theorem isInternal_of_texelFault? {format : ImageFormat} {width height : UInt32}
    {texels : List UInt8} (h : texelFault? format width height texels = some f) :
    isInternal f = false := by
  unfold texelFault? at h
  grind [isInternal, isInternalMisuse]

theorem isInternal_of_arguments {slots : List ParamSlot} {args : List (Argument Resource)}
    (h : argumentsFault? slots args = some f) : isInternal f = false := by
  fun_induction argumentsFault? slots args with
  | case1 slot slots arg args ih =>
    rcases Option.or_eq_some_iff.1 h with h | ⟨-, h⟩
    · unfold argumentFault? at h
      simp only at h
      split at h
      · cases h
        rfl
      · split at h
        · split at h <;> cases h
          rfl
        · split at h
          · cases h
          · rename_i ht
            cases h
            rw [isInternal_failureOf]
            exact isInternal_of_texels ht
        · cases h
    · exact ih h
  | case2 => cases h

theorem isInternal_of_params {args : List (Argument Resource)} {position : Nat} {g : UsageFault}
    (h : RunArgs.paramsFault? position args = some g) : isInternalMisuse g = false := by
  fun_induction RunArgs.paramsFault? position args with
  | case1 => cases h
  | case2 _ _ _ _ ih => exact ih h
  | case3 =>
    cases h
    rfl

theorem isInternal_of_groupCount {a : Argument Resource} {g : UsageFault}
    (h : RunArgs.groupCount a = .error g) : isInternalMisuse g = false := by
  unfold RunArgs.groupCount at h
  split at h <;> cases h
  rfl

theorem isInternal_of_split {count : Nat} {args : List (Argument Resource)} {g : UsageFault}
    (h : RunArgs.split count args = .error g) : isInternalMisuse g = false := by
  unfold RunArgs.split at h
  simp only at h
  split at h
  · cases h
    rfl
  · rcases except_bind_eq_error h with h | ⟨counts, -, h⟩
    · unfold RunArgs.groupCounts at h
      split at h
      · cases h
      · rcases except_bind_eq_error h with h | ⟨x, -, h⟩
        · exact isInternal_of_groupCount h
        rcases except_bind_eq_error h with h | ⟨y, -, h⟩
        · exact isInternal_of_groupCount h
        rcases except_bind_eq_error h with h | ⟨z, -, h⟩
        · exact isInternal_of_groupCount h
        · cases h
      · cases h
        rfl
    · split at h
      · rename_i hf
        cases h
        exact isInternal_of_params hf
      · cases h

theorem isInternal_of_uniforms {values : UniformMap} {g : UsageFault}
    (h : k.uniformsFault? values = some g) : isInternalMisuse g = false := by
  obtain ⟨e, -, he⟩ := List.exists_of_findSome?_eq_some h
  unfold uniformFault? at he
  split at he
  · rename_i hu
    unfold uniform? at hu
    split at hu <;> cases hu
    cases he
    rfl
  · split at he <;> cases he
    rfl

/-- What is found wrong before a run does anything is none of the misuses that come later. -/
theorem isInternal_of_check {args : List (Argument Resource)} (h : k.checkRun args = .error f) :
    isInternal f = false := by
  unfold checkRun at h
  rcases except_bind_eq_error h with h | ⟨run, -, h⟩
  · obtain ⟨g, hg, rfl⟩ := mapError_eq_error_iff.1 h
    exact isInternal_of_split hg
  simp only at h
  split at h
  · rename_i ha
    cases h
    exact isInternal_of_arguments ha
  split at h
  · rename_i hu
    cases h
    obtain ⟨values, -, hu⟩ := Option.bind_eq_some_iff.1 hu
    exact isInternal_of_uniforms hu
  split at h <;> cases h
  rfl

theorem allocateTexture_isInternal {width height : UInt32} {format : ImageFormat}
    (h : allocateTexture width height format d = .error f d') : isInternal f = false := by
  rcases allocateTexture_cases width height format d with
    ⟨h', -⟩ | ⟨-, -, ⟨g, hf, h'⟩ | ⟨g, hf, h'⟩ | h'⟩ <;> cases h.symm.trans h'
  · rfl
  · exact isInternal_of_fault hf
  · exact isInternal_of_fault hf

theorem Refuses.isInternal (h : Refuses k groups slot b arg f) (hp : slot.kind.Plain)
    (ha : Passes slot arg) : Kernel.isInternal f = false := by
  cases h with
  | invocations _ _ h =>
    obtain ⟨-, rfl⟩ := counted_eq_error_iff.1 h
    rfl
  | output _ _ _ _ => rfl
  | texels _ h => exact isInternal_of_texels h
  | image hk =>
    obtain ⟨type, format, access, hk'⟩ := ha.isTexture hp rfl
    cases hk.symm.trans hk'
  | trailer h => cases h.symm.trans ha.value

theorem Asks.isInternal (h : Asks k groups slot b arg ask) (hf : ask d = .error f d') :
    Kernel.isInternal f = false := by
  cases h with
  | buffer _ _ _ _ | host _ => exact isInternal_of_fault (allocateBuffer_error (map_eq_error hf))
  | texture _ _ | image _ _ _ => exact allocateTexture_isInternal (map_eq_error hf)

theorem Sends.isInternal {o : Ownership} (h : Sends slot arg x send)
    (hk : keepsSlot (some ⟨x, o⟩) arg = true) (hf : send d = .error f d') :
    Kernel.isInternal f = false := by
  cases h with
  | null _ => cases hf
  | host data b =>
    have hl : data.toBytes.length ≤ b.size := by simpa [keepsSlot, Resource.buffer?] using hk
    rcases uploadBuffer_cases b data.toBytes d with ⟨hl', -⟩ | ⟨-, h⟩ | ⟨-, -, h | ⟨g, hg, h⟩⟩
    · omega
    · cases hf.symm.trans h
    · cases hf.symm.trans h
    · cases hf.symm.trans h
      exact isInternal_of_fault hg
  | @image image _ _ _ texels _ _ x =>
    have hx : x.fits image.width image.height = true := by
      simpa [keepsSlot, Resource.texture?] using hk
    rcases uploadTexture_cases x texels image.width image.height d with
      ⟨hx', -⟩ | ⟨-, g, hl, h⟩ | ⟨-, -, h | ⟨g, hg, h⟩⟩
    · cases hx.symm.trans hx'
    · cases hf.symm.trans h
      exact isInternal_of_texelFault? hl
    · cases hf.symm.trans h
    · cases hf.symm.trans h
      exact isInternal_of_fault hg

/-- An argument that was checked is bound to its slot, or the run fails for a reason that has to do
with the device or with its sizes. -/
theorem bind_isInternal {t : Turn} {r r' : Running} (hp : t.slot.kind.Plain)
    (ha : Passes t.slot arg) (hd : r.device.Bounded) (hf : bind t groups arg r = .error f r') :
    isInternal f = false := by
  have send_error : ∀ {send : Work Unit} {x : Resource} {o : Ownership} {r₁ : Running},
      onDevice send r₁ = .error f r' → Sends t.slot arg x send →
      keepsSlot (some ⟨x, o⟩) arg = true → isInternal f = false := by
    intro send x o r₁ h hs hk
    obtain ⟨d, hd, -⟩ := onDevice_eq_error h
    exact hs.isInternal hk hd
  have hb := bind_binds t groups arg r
  rw [hf] at hb
  generalize hx : (EStateM.Result.error f r' : EStateM.Result Failure Running Unit) = x at hb
  cases hb with
  | refused h =>
    cases hx
    exact h.isInternal hp ha
  | kept hb hk hs => exact send_error hx.symm hs hk
  | adopted _ => cases hx
  | unmade hask h =>
    cases hx
    exact hask.isInternal h
  | made hask h hs => exact send_error hx.symm hs (hask.keeps hd h .owned)

end Faults

section Turns

variable {t : Turn} {groups : Extent} {arg : Argument Resource} {r r' : Running}

/-- The buffers in the slots of which something holds. -/
def slotBuffers (k : Kernel) (p : Nat → Prop) (b : Buffer) : Prop :=
  ∃ i o, p i ∧ k.bound? i = some ⟨.buffer b, o⟩

theorem replaced_within {B : Buffer → Prop} (new : Bound) :
    Emits (Within B) r.device (replaced t new r).device := by
  rcases replaced_cases t new r with h | ⟨old, -, -, -, h⟩ <;> rw [h]
  · exact .of_eq rfl
  · refine .single rfl ?_
    rintro n bytes ⟨⟩

theorem Sends.within {send : Work Unit} {b : Bound} {B : Buffer → Prop}
    (h : Sends t.slot arg b.resource send) (hs : b.resource.Sized)
    (hB : ∀ x, b = ⟨.buffer x, b.ownership⟩ → B x) :
    Emits (Within B) r.device (endState (onDevice send r)).device := by
  rw [endState_onDevice]
  rcases b with ⟨x, o⟩
  cases h with
  | null _ => exact .of_eq rfl
  | host data b =>
    rcases uploadBuffer_cases b data.toBytes r.device with
      ⟨-, h⟩ | ⟨-, h⟩ | ⟨-, hl, h | ⟨g, -, h⟩⟩ <;> rw [h]
    · exact .of_eq rfl
    · exact .of_eq rfl
    · exact .single rfl (within_aligned (hB b rfl) hs hl)
    · exact .single rfl (within_aligned (hB b rfl) hs hl)
  | @image image _ _ _ texels _ _ x =>
    rcases uploadTexture_end x texels image.width image.height r.device with h | h
    · exact .of_eq (congrArg Device.events h)
    · obtain ⟨e, he, -, ht⟩ := h.events
      refine .single he ?_
      rintro n bytes rfl
      cases ht

/-- What is uploaded in a turn goes to the slot of the turn and has room there. -/
theorem bind_within (groups : Extent) (arg : Argument Resource)
    (hi : t.index < r.kernel.slots.length) (hd : r.device.Bounded)
    (hb : ∀ b, r.kernel.bound? t.index = some b → b.resource.Sized) :
    Emits (Within (slotBuffers (endState (bind t groups arg r)).kernel (· = t.index))) r.device
      (endState (bind t groups arg r)).device := by
  have hbind := bind_binds t groups arg r
  generalize bind t groups arg r = x at hbind ⊢
  cases hbind with
  | refused _ => exact .of_eq rfl
  | @kept b _ hbound _ hs =>
    refine hs.within (hb _ hbound) fun x hx => ⟨t.index, b.ownership, rfl, ?_⟩
    rw [endState_onDevice, ← hx]
    exact hbound
  | adopted _ => exact replaced_within _
  | unmade ha h =>
    rcases ha.allocates.1 r.device with ⟨f, h'⟩ | ⟨f, x, d, h', hc⟩ | ⟨a, d, h', -⟩ <;>
      cases h.symm.trans h'
    · exact .of_eq rfl
    · exact hc.within
  | @made _ _ x d ha h hs =>
    refine (ha.creates h).within.trans
      ((replaced_within (r := { r with device := d }) ⟨x, .owned⟩).trans
        (hs.within (b := ⟨x, .owned⟩) (ha.sized hd h) fun y hy => ⟨t.index, .owned, rfl, ?_⟩))
    rw [endState_onDevice, ← hy]
    exact bound?_replaced hi

end Turns

section Runs

variable {others : List ResourceId} {args : List (Argument Resource)} {r r' : Running}

/-- The buffers that a kernel refers to. -/
def refersTo (k : Kernel) (b : Buffer) : Prop :=
  slotBuffers k (fun _ => True) b ∨ ∃ i, k.uniformBuffer? i = some b

theorem UniformStep.within (h : UniformStep r r') (hs : Shaped r.kernel) :
    Emits (Within (refersTo r'.kernel)) r.device r'.device := by
  cases h with
  | lost hc => exact hc.within
  | fill _ _ _ _ hc => exact hc.within
  | @write i b bytes hb hl =>
    have hi : i < r.kernel.program.layout.uniforms.length := by
      obtain ⟨hi, -⟩ := List.getElem?_eq_some_iff.1 (Option.join_eq_some_iff.1 hb)
      rwa [← hs.uniforms]
    have hsize := hs.room i _ b (List.getElem?_eq_getElem hi) hb
    refine .single rfl (within_aligned (.inr ⟨i, hb⟩) ?_ hl)
    rw [hsize, UniformSlot.byteSize]
    cases (r.kernel.program.layout.uniforms[i]).kind <;> simp [Scalar.byteSize]
  | note _ => exact .of_eq rfl

theorem UniformStep.refersTo (h : UniformStep r r') {b : Buffer} (hb : refersTo r.kernel b) :
    Kernel.refersTo r'.kernel b := by
  rcases hb with ⟨i, o, hp, hb⟩ | ⟨i, hb⟩
  · refine .inl ⟨i, o, hp, ?_⟩
    rw [bound?, h.slots]
    exact hb
  · exact .inr ⟨i, h.prepares.uniforms i b hb⟩

theorem UniformStep.within_trans {d : Device} (h : UniformStep r r')
    (hr : Shaped r.kernel ∧ Emits (Within (Kernel.refersTo r.kernel)) d r.device) :
    Shaped r'.kernel ∧ Emits (Within (Kernel.refersTo r'.kernel)) d r'.device :=
  ⟨h.prepares.shaped hr.1,
    (hr.2.mono fun _ he => he.mono fun _ => h.refersTo).trans (h.within hr.1)⟩

theorem setUniform_within (name : String) (values : List Binary64) (hs : Shaped r.kernel) :
    Emits (Within (refersTo (endState (setUniform name values r)).kernel)) r.device
      (endState (setUniform name values r)).device :=
  (kept_of_steps
    (P := fun r' => Shaped r'.kernel ∧ Emits (Within (refersTo r'.kernel)) r.device r'.device)
    UniformStep.within_trans (setUniform_steps name values hs.uniforms) ⟨hs, .of_eq rfl⟩).2

theorem ensurePipeline_within {B : Buffer → Prop} (h : endState (ensurePipeline r) = r') :
    Emits (Within B) r.device r'.device := by
  have made : ∀ l, Emits (Within B) r.device (r.device.attempted (createPipeline l)) := by
    intro l
    obtain ⟨es, he, hes⟩ := createPipeline_events l r.device
    refine ⟨es, he, fun e hm => ?_⟩
    rintro n bytes rfl
    cases (hes _ hm).2.1
  subst h
  rcases ensurePipeline_cases r with ⟨p, -, h⟩ | ⟨-, ⟨f, h⟩ | ⟨l, -, ⟨m, h⟩ | h⟩⟩ <;> rw [h]
  · exact .of_eq rfl
  · exact .of_eq rfl
  · exact made l
  · exact made l

theorem Launches.within {p : Pipeline} {es : List Event} {made : List (String × BindGroup)}
    {d : Device} (h : Launches p es made r r')
    (hr : Shaped r.kernel ∧ Emits (Within (refersTo r.kernel)) d r.device) :
    Shaped r'.kernel ∧ Emits (Within (refersTo r'.kernel)) d r'.device := by
  refine ⟨h.ready.toShaped, ?_⟩
  obtain ⟨_, _, _, hk⟩ := h.kernel
  have hsame : refersTo r'.kernel = refersTo r.kernel := by
    rw [hk]
    rfl
  rw [hsame]
  refine hr.2.trans ⟨es, h.events, fun e he => ?_⟩
  rintro n bytes rfl
  cases h.launch _ he

/-- What is uploaded while all arguments are bound. -/
theorem bindAll_within {slots : List ParamSlot} {groups : Extent}
    (hl : slots.length ≤ r.kernel.slots.length) (hd : r.device.Bounded)
    (hp : ∀ s ∈ slots, s.kind.Plain)
    (ha : ∀ (i : Nat) slot arg, slots[i]? = some slot → args[i]? = some arg → Passes slot arg)
    (hb : ∀ i b, r.kernel.bound? i = some b → b.resource.Sized) :
    Ends (fun r' => Leaving groups slots args r r' ∧
        Emits (Within (slotBuffers r'.kernel (· < min slots.length args.length)))
          r.device r'.device)
      (fun f r' => Leaving groups slots args r r' ∧ isInternal f = false ∧
        Emits (Within (slotBuffers r'.kernel fun _ => True)) r.device r'.device)
      (bindAll others groups 0 slots args r) := by
  refine bindAll_leaving (J := fun j r' =>
    Emits (Within (slotBuffers r'.kernel (· < j))) r.device r'.device) hl ?_ (.of_eq rfl)
  intro t arg r₁ hs harg hi hL hown hJ
  have hd₁ : r₁.device.Bounded := by rwa [Bounded, hL.limits]
  have hpass := ha _ _ _ hs harg
  have hturn := bind_within groups arg hi hd₁ fun b h => hb _ b (hown ▸ h)
  have hT := bind_turned groups arg hi
  -- No turn touches the slots of the turns before it.
  have hbefore : ∀ b, slotBuffers r₁.kernel (· < t.index) b →
      slotBuffers (endState (bind t groups arg r₁)).kernel (· < t.index + 1) b := by
    rintro b ⟨i, o, hlt, hbound⟩
    exact ⟨i, o, by omega, (hT.others i (by omega)).trans hbound⟩
  have hend :
      Emits (Within (slotBuffers (endState (bind t groups arg r₁)).kernel (· < t.index + 1)))
        r.device (endState (bind t groups arg r₁)).device := by
    refine (hJ.mono fun _ he => he.mono hbefore).trans (hturn.mono fun _ he => he.mono ?_)
    rintro b ⟨i, o, rfl, hbound⟩
    exact ⟨t.index, o, Nat.lt_succ_self _, hbound⟩
  rcases hr : bind t groups arg r₁ with ⟨_, r₂⟩ | ⟨f, r₂⟩ <;> rw [hr] at hend
  · exact hend
  · refine ⟨bind_isInternal (hp _ (List.mem_of_getElem? hs)) hpass hd₁ hr,
      hend.mono fun _ he => he.mono ?_⟩
    rintro b ⟨i, o, -, hbound⟩
    exact ⟨i, o, trivial, hbound⟩

theorem run_within (others : List ResourceId) (hc : Coherent r.kernel)
    (hp : ∀ s ∈ r.kernel.program.layout.params, s.kind.Plain) (hd : r.device.Bounded)
    (hb : ∀ i b, r.kernel.bound? i = some b → b.resource.Sized) :
    Ends (fun r' => Shaped r'.kernel ∧ Emits (Within (refersTo r'.kernel)) r.device r'.device)
      (fun f r' => isInternal f = false ∧ Emits (Within (refersTo r'.kernel)) r.device r'.device)
      (run others args r) := by
  have weaken : ∀ {k : Kernel} {p : Nat → Prop} {b : Buffer}, slotBuffers k p b → refersTo k b := by
    rintro k p b ⟨i, o, -, hbound⟩
    exact .inl ⟨i, o, trivial, hbound⟩
  refine run_ends hc ?_ ?_ ?_ (fun h => h.within_trans) (fun h => h.within)
    (fun hf hI => ⟨isInternal_of_fault hf, hI.2⟩)
  · exact fun f hf => ⟨isInternal_of_check hf, .of_eq rfl⟩
  · intro f r₁ he
    refine ⟨?_, ensurePipeline_within (congrArg endState he)⟩
    rcases ensurePipeline_cases r with ⟨p, -, h⟩ | ⟨-, ⟨f, h⟩ | ⟨l, -, ⟨m, h⟩ | h⟩⟩ <;>
      cases he.symm.trans h <;> rfl
  · intro run groups r₁ hcheck he hs
    obtain ⟨⟨p, hk⟩, hsetup, -⟩ := ensurePipeline_frame he
    have hprogram : r₁.kernel.program = r.kernel.program := by rw [hk]
    have hfirst : ∀ {B : Buffer → Prop}, Emits (Within B) r.device r₁.device :=
      ensurePipeline_within he
    have hl : r₁.kernel.program.layout.params.length ≤ r₁.kernel.slots.length := by
      have := hs.slots
      omega
    have hend : Ends _ _ (bindAll others groups 0 r₁.kernel.program.layout.params run.params r₁) :=
      bindAll_within hl (by rwa [Bounded, limits_of_setup hsetup]) (by rwa [hprogram])
        (fun i slot arg h h' => (checkRun_passes hcheck (hprogram ▸ h) h').1)
        (fun i b h => hb i b (by rw [hk] at h; exact h))
    rcases hr : bindAll others groups 0 r₁.kernel.program.layout.params run.params r₁ with
      ⟨_, r₂⟩ | ⟨f, r₂⟩ <;> rw [hr] at hend
    · exact ⟨hend.1.shaped hs, hfirst.trans (hend.2.mono fun _ h => h.mono fun _ => weaken)⟩
    · exact ⟨hend.2.1, hfirst.trans (hend.2.2.mono fun _ h => h.mono fun _ => weaken)⟩

end Runs

section Kernels

variable {program : Program} {k : Kernel} {args : List (Argument Resource)}

/-- The devices and arguments that a kernel is used with. -/
def Admitted (d : Device) (args : List (Argument Resource)) : Prop :=
  d.Bounded ∧ ∀ x, .resource x ∈ args → Obtained x

/-- Every slot holds what its kind asks for, every resource has a size that can be used, and the
buffer of a uniform has room for its four values and nothing else. -/
structure Typed (k : Kernel) : Prop where
  slots : ∀ i b, k.bound? i = some b → ∃ slot, k.program.layout.params[i]? = some slot ∧
    slot.kind.Fits b.resource ∧ b.resource.Sized
  uniforms : ∀ i b, k.uniformBuffer? i = some b → ∃ slot,
    k.program.layout.uniforms[i]? = some slot ∧ b.size = slot.byteSize

theorem keeps_sized {l : Layout} {d : Device} (h : Admitted d args) :
    Keeps (fun _ x => x.Sized) l d.limits args := by
  intro k groups slot arg b b' _ harg _ hl
  refine hl.sized h.1 fun x hx => ?_
  exact (h.2 x (hx ▸ harg)).sized

theorem Lived.typed (h : Lived program Admitted k)
    (hu : ∀ p, groupLayouts program = .ok p → p.uniforms.length = program.layout.uniforms.length)
    (hp : ∀ s ∈ program.layout.params, s.kind.Plain) : Typed k where
  slots i b hb := by
    obtain ⟨slot, hs, hf⟩ := h.holding hu (fun _ _ _ => keeps_fits hp) i b hb
    obtain ⟨slot', hs', hz⟩ :=
      h.holding (P := fun _ x => x.Sized) hu (fun _ _ => keeps_sized) i b hb
    exact ⟨slot, hs, hf, hz⟩
  uniforms i b hb := by
    obtain ⟨hc, -⟩ := h.coherent hu
    obtain ⟨hi, -⟩ := List.getElem?_eq_some_iff.1 (Option.join_eq_some_iff.1 hb)
    rw [hc.uniforms] at hi
    have hs := List.getElem?_eq_getElem hi
    exact ⟨_, hs, hc.room i _ b hs hb⟩

/-- Over its whole life a kernel is typed: its slots and uniforms hold what their kinds ask for. So
no run of it fails because an argument cannot be bound, because an upload does not fit, or because a
slot is empty, and what is written to a buffer never goes past its end, also with the zeros that
fill it up. -/
theorem slots_typed {frontEnd : FrontEnd} {source : KernelSource} {config : Config}
    {program : Program} {log : List LogLine} {k : Kernel}
    (hp : (source.compile frontEnd config).outcome = (.ok program, log))
    (hk : Lived program Admitted k) :
    Typed k ∧
      (∀ others args device log, Admitted device args →
        (∀ f r', run others args ⟨k, device, log⟩ = .error f r' → isInternal f = false) ∧
        Emits (Within (refersTo (endState (run others args ⟨k, device, log⟩)).kernel)) device
          (endState (run others args ⟨k, device, log⟩)).device) ∧
      ∀ name values device log,
        Emits (Within (refersTo (endState (setUniform name values ⟨k, device, log⟩)).kernel)) device
          (endState (setUniform name values ⟨k, device, log⟩)).device := by
  have hu : ∀ p, groupLayouts program = .ok p → _ := fun p => compile_uniforms hp
  have htyped := hk.typed hu (compile_plain hp)
  obtain ⟨hc, hprogram⟩ := hk.coherent hu
  refine ⟨htyped, fun others args device log ha => ?_, fun name values device log => ?_⟩
  · have hend : Ends _ _ (run others args ⟨k, device, log⟩) :=
      run_within (r := ⟨k, device, log⟩) others hc (by rw [hprogram]; exact compile_plain hp) ha.1
        fun i b hb => by
          obtain ⟨slot, -, -, hz⟩ := htyped.slots i b hb
          exact hz
    rcases hr : run others args ⟨k, device, log⟩ with ⟨_, r'⟩ | ⟨f, r'⟩ <;> rw [hr] at hend
    · exact ⟨by simp, hend.2⟩
    · refine ⟨?_, hend.2⟩
      rintro f' r'' ⟨⟩
      exact hend.1
  · exact setUniform_within (r := ⟨k, device, log⟩) name values hc.toShaped

/-- A kernel after a run in which the upload of five bytes failed, and what the theorem says of it.
-/
theorem slots_typed_interrupted :
    let device : Device :=
      { Session.sample.device with queued := [⟨⟨.writeBuffer, .outOfMemory⟩, 0⟩] }
    let k := (endState (run [] [.host (.u8 [1, 2, 3, 4, 5])]
      ⟨fresh Session.sampleProgram none ⟨8, 6⟩, device, []⟩)).kernel
    k.bound? 0 = some ⟨.buffer ⟨0, 8⟩, .owned⟩ ∧ Typed k ∧
      ∀ f r', run [] [.host (.u8 [1]), .group 0, .group 0, .group 0] ⟨k, device, []⟩ = .error f r' →
        isInternal f = false := by
  intro device k
  have hlimit : device.Bounded := by decide
  have hk : Lived Session.sampleProgram Admitted k :=
    .run (.create (d := Session.sample.device) (k := fresh Session.sampleProgram none ⟨8, 6⟩) rfl)
      ⟨hlimit, by simp⟩ [] []
  obtain ⟨ht, hr, -⟩ := slots_typed Session.compile_sample hk
  exact ⟨by decide +kernel, ht, (hr [] _ device [] ⟨hlimit, by simp⟩).1⟩

end Kernels

end Kernel

end ComputeKernel
