import ComputeKernel.Proofs.Typing
import Mathlib.Algebra.Order.BigOperators.GroupWithZero.List
import Mathlib.Order.Bounds.Basic
import Mathlib.Tactic.Ring

/-!
# The size of outputs

A slot for a buffer that holds nothing and is given nothing gets a buffer with one element for every
invocation. The bytes are multiplied out one factor after the other, and each product has to fit
into 64 bits. No factor is zero in a run that is accepted, so a product that is too large stays too
large, and the check is one of the last product (`foldlM_product?`). What is asked of the device is
the least size with room for these bytes (`alignedSize_eq`), unless that is above what the device
has (`bind_outputEnd`). A run does the same for each of its slots (`run_output`).
-/

namespace ComputeKernel

open Device Relation RunM Shader

/-- The bytes of one element for every invocation of every group. -/
def Layout.outputBytes (l : Layout) (groups : Extent) (type : ParamType) : Nat :=
  groups.count * l.workgroupSize.count * type.elementBytes

namespace Kernel

section Products

variable {l : Layout} {groups : Extent}

theorem foldlM_product? {factors : List Nat} (hf : ∀ a ∈ factors, 0 < a) {n : Nat}
    (hn : n < UInt64.size) : factors.foldlM product? n = product? n factors.prod := by
  induction factors generalizing n with
  | nil => simp [product?, hn]
  | cons a factors ih =>
    have hf' : ∀ b ∈ factors, 0 < b := fun b hb => hf b (List.mem_cons_of_mem a hb)
    have hassoc : n * (a :: factors).prod = n * a * factors.prod := by
      rw [List.prod_cons, Nat.mul_assoc]
    rw [List.foldlM_cons]
    by_cases hna : n * a < UInt64.size
    · have hstep : product? n a = some (n * a) := if_pos hna
      rw [hstep, product?, hassoc]
      exact ih hf' hna
    · -- The factors that are still to come do not make the product smaller.
      have hle : n * a ≤ n * a * factors.prod :=
        Nat.le_mul_of_pos_right _ (List.prod_pos hf')
      have hstep : product? n a = none := if_neg hna
      rw [hstep, product?, hassoc, if_neg (by omega)]
      rfl

theorem elementBytes_pos (type : ParamType) : 0 < type.elementBytes := by
  unfold ParamType.elementBytes
  split
  · rename_i kind _
    cases kind <;> decide
  · decide

theorem pos_of_hasZero (hg : groups.hasZero = false) :
    0 < groups.x.toNat ∧ 0 < groups.y.toNat ∧ 0 < groups.z.toNat := by
  have pos : ∀ {a : UInt32}, a ≠ 0 → 0 < a.toNat := fun ha =>
    Nat.pos_of_ne_zero fun h => ha (UInt32.toNat_inj.1 h)
  simp only [Extent.hasZero, Bool.or_eq_false_iff, beq_eq_false_iff_ne] at hg
  exact ⟨pos hg.1.1, pos hg.1.2, pos hg.2⟩

/-- The bytes of an output are known unless 64 bits cannot count them. -/
theorem outputSize?_eq (type : ParamType) (hg : groups.hasZero = false)
    (hw : l.workgroupSize.count < UInt64.size) :
    outputSize? l.workgroupSize.count groups type.elementBytes =
      if l.outputBytes groups type < UInt64.size then some (l.outputBytes groups type)
      else none := by
  obtain ⟨hx, hy, hz⟩ := pos_of_hasZero hg
  have hbytes : l.workgroupSize.count *
      [groups.x.toNat, groups.y.toNat, groups.z.toNat, type.elementBytes].prod =
        l.outputBytes groups type := by
    simp only [List.prod_cons, List.prod_nil, Layout.outputBytes, Extent.count]
    ring
  unfold outputSize?
  rw [foldlM_product? (by simp [hx, hy, hz, elementBytes_pos]) hw, product?, hbytes]

end Products

section Requests

/-- The sizes that a buffer with room for some bytes can have. -/
def roomFor (n : Nat) : Set Nat := {size | 4 ∣ size ∧ max n 4 ≤ size}

variable {n size : Nat} {d : Device}

theorem isLeast_roomFor (n : Nat) : IsLeast (roomFor n) ((max n 4 + 3) / 4 * 4) := by
  refine ⟨⟨Nat.dvd_mul_left _ _, by omega⟩, ?_⟩
  rintro size ⟨hdvd, hle⟩
  omega

/-- The size of a buffer is the least with room for its bytes, as far as 64 bits can count. -/
theorem alignedSize_eq (hs : IsLeast (roomFor n) size) :
    alignedSize n = min (UInt64.size - 1) size := by
  rw [hs.unique (isLeast_roomFor n)]
  rfl

theorem lt_alignedSize_iff (hd : d.Bounded) (hs : IsLeast (roomFor n) size) :
    d.limits.bufferSize < alignedSize n ↔ d.limits.bufferSize < size := by
  have hd : d.limits.bufferSize < UInt64.size - 4 := hd
  rw [alignedSize_eq hs]
  omega

theorem alignedSize_of_le (hd : d.Bounded) (hs : IsLeast (roomFor n) size)
    (hle : size ≤ d.limits.bufferSize) : alignedSize n = size := by
  have hd : d.limits.bufferSize < UInt64.size - 4 := hd
  rw [alignedSize_eq hs]
  omega

theorem allocateBuffer_of_lt (h : d.limits.bufferSize < alignedSize n) :
    allocateBuffer n d =
      .error (.backend (.bufferLimit (alignedSize n) d.limits.bufferSize)) d := by
  unfold allocateBuffer
  rw [bind_of_error (by rw [checkSize_eq, if_pos h])]

/-- A buffer that is not too large is asked for, and it is made unless an error waits for it. -/
theorem allocateBuffer_of_le (h : alignedSize n ≤ d.limits.bufferSize) :
    (d.queued.any (·.isDue .createBuffer) = false ∧ allocateBuffer n d =
        .ok ⟨d.buffers.length, alignedSize n⟩ (d.withBuffer (alignedSize n))) ∨
      d.queued.any (·.isDue .createBuffer) = true ∧ ∃ e, allocateBuffer n d =
        .error (.backend (.raised .allocateBuffer e)) (d.withBuffer (alignedSize n)) := by
  unfold allocateBuffer
  rw [bind_of_ok (by rw [checkSize_eq, if_neg (Nat.not_lt.2 h)])]
  rcases checked_cases d .allocateBuffer (·.createBuffer (alignedSize n) "webcs_buffer") with
    hc | ⟨e, hc⟩
  · refine .inl ⟨(error?_enter d .createBuffer).1 (checked_scope.1 hc), ?_⟩
    rw [bind_of_ok hc]
    rfl
  · refine .inr ⟨?_, e, by rw [bind_of_error hc]; rfl⟩
    exact Bool.not_eq_false _ ▸ fun hq => checked_scope.2 hc ((error?_enter d .createBuffer).2 hq)

end Requests

section Turns

/-- How a turn ends that is to give an empty slot a buffer of `size` bytes for an output of `bytes`
bytes. -/
inductive OutputEnd (t : Turn) (groups : Extent) (r : Running) (bytes size : Nat) :
    EStateM.Result Failure Running Unit → Prop
  | uncounted (h : UInt64.size ≤ bytes) :
    OutputEnd t groups r bytes size (.error (.usage (.outputTooLarge groups t.slot.name)) r)
  | tooLarge (h : bytes < UInt64.size) (hl : r.device.limits.bufferSize < size) :
    OutputEnd t groups r bytes size (.error
      (.backend (.bufferLimit (min (UInt64.size - 1) size) r.device.limits.bufferSize)) r)
  /-- The device is asked for the buffer, but an error waits for it. -/
  | turnedDown (h : bytes < UInt64.size) (hl : size ≤ r.device.limits.bufferSize)
    (hq : r.device.queued.any (·.isDue .createBuffer) = true) (e : DeviceError) :
    OutputEnd t groups r bytes size (.error (.backend (.raised .allocateBuffer e))
      { r with device := r.device.withBuffer size })
  | made (h : bytes < UInt64.size) (hl : size ≤ r.device.limits.bufferSize)
    (hq : r.device.queued.any (·.isDue .createBuffer) = false) :
    OutputEnd t groups r bytes size (.ok () (rebound t
      ⟨.buffer ⟨r.device.buffers.length, size⟩, .owned⟩
      { r with device := r.device.withBuffer size }))

variable {t : Turn} {groups : Extent} {type : ParamType} {r : Running} {n size : Nat}

theorem replaced_of_empty (new : Bound) (hb : r.kernel.bound? t.index = none) :
    replaced t new r = rebound t new r := by
  unfold replaced
  rw [hb]

/-- An empty slot for a buffer is given one with an element for every invocation. -/
theorem bind_null_eq (hk : t.slot.kind = .buffer type) (hb : r.kernel.bound? t.index = none)
    (hw : r.kernel.program.layout.workgroupSize.count < UInt64.size) :
    bind t groups .null r = (match outputSize? r.kernel.program.layout.workgroupSize.count groups
        type.elementBytes with
      | none => throw (.usage (.outputTooLarge groups t.slot.name))
      | some n => onDevice (allocateBuffer n) >>= fun b => replace t ⟨.buffer b, .owned⟩ :
        RunM Unit) r := by
  have hi : r.kernel.program.layout.invocations = .ok r.kernel.program.layout.workgroupSize.count :=
    counted_of_lt hw
  show keep t groups r = _
  unfold keep makeOutput
  simp only [get_bind, hb, Option.isNone_none, if_true, hk]
  exact bind_of_ok (orFail_of_ok hi r)

/-- A slot that holds nothing gets a buffer of the least size with room for its output. -/
theorem bind_outputEnd (hk : t.slot.kind = .buffer type) (hb : r.kernel.bound? t.index = none)
    (hg : groups.hasZero = false)
    (hw : r.kernel.program.layout.workgroupSize.count < UInt64.size) (hd : r.device.Bounded)
    (hs : IsLeast (roomFor (r.kernel.program.layout.outputBytes groups type)) size) :
    OutputEnd t groups r (r.kernel.program.layout.outputBytes groups type) size
      (bind t groups .null r) := by
  have hsize := outputSize?_eq type hg hw
  rw [bind_null_eq hk hb hw]
  generalize r.kernel.program.layout.outputBytes groups type = bytes at hs hsize ⊢
  rcases Nat.lt_or_ge bytes UInt64.size with h | h
  · rw [hsize, if_pos h]
    dsimp only
    rcases Nat.lt_or_ge r.device.limits.bufferSize size with hl | hl
    · have ha := allocateBuffer_of_lt ((lt_alignedSize_iff hd hs).2 hl)
      rw [bind_of_error (onDevice_of_error ha), alignedSize_eq hs]
      exact .tooLarge h hl
    · have haligned := alignedSize_of_le hd hs hl
      rcases allocateBuffer_of_le (n := bytes) (d := r.device) (haligned ▸ hl) with
        ⟨hq, ha⟩ | ⟨hq, e, ha⟩ <;> rw [haligned] at ha
      · rw [bind_of_ok (onDevice_of_ok ha), replace_eq, replaced_of_empty _ (by exact hb)]
        exact .made h hl hq
      · rw [bind_of_error (onDevice_of_error ha)]
        exact .turnedDown h hl hq e
  · rw [hsize, if_neg (Nat.not_lt.2 h)]
    exact .uncounted h

/-- What is reported, what is asked of the device, and what is in the slot then. -/
structure SizesOutput (t : Turn) (r : Running) (bytes size : Nat)
    (x : EStateM.Result Failure Running Unit) : Prop where
  usage_iff : (∃ f r', x = .error (.usage f) r') ↔ UInt64.size ≤ bytes
  limit : bytes < UInt64.size → r.device.limits.bufferSize < size → x = .error
    (.backend (.bufferLimit (min (UInt64.size - 1) size) r.device.limits.bufferSize)) r
  request : bytes < UInt64.size → size ≤ r.device.limits.bufferSize →
    (endState x).device.events =
      r.device.events ++ [.createBuffer r.device.buffers.length size "webcs_buffer"]
  bound : ∀ r', x = .ok () r' → r'.kernel.slots =
    r.kernel.slots.set t.index (some ⟨.buffer ⟨r.device.buffers.length, size⟩, .owned⟩)
  kept : ∀ f r', x = .error f r' → r'.kernel = r.kernel

theorem OutputEnd.sizes {bytes : Nat} {x : EStateM.Result Failure Running Unit}
    (h : OutputEnd t groups r bytes size x) : SizesOutput t r bytes size x where
  usage_iff := by cases h <;> simp [*]
  limit := by
    intro hbytes hsize
    cases h with
    | uncounted h => omega
    | tooLarge _ _ => rfl
    | turnedDown _ hl _ _ => omega
    | made _ hl _ => omega
  request := by
    intro hbytes hsize
    cases h with
    | uncounted h => omega
    | tooLarge _ hl => omega
    | turnedDown _ _ _ _ => rfl
    | made _ _ _ => rfl
  bound := by cases h <;> simp [rebound]
  kept := by cases h <;> simp +contextual

end Turns

section Runs

variable {others : List ResourceId} {args : List (Argument Resource)} {r : Running}
  {accepted : RunArgs} {groups : Extent} {type : ParamType} {slot : ParamSlot}
  {i bytes size : Nat} {limits : Limits}

/-- A slot has a buffer of `size` bytes for an output of `bytes` bytes. -/
def HasOutput (limits : Limits) (bytes size : Nat) (b : Option Bound) : Prop :=
  bytes < UInt64.size ∧ size ≤ limits.bufferSize ∧ ∃ n, b = some ⟨.buffer ⟨n, size⟩, .owned⟩

theorem hasZero_of_check {k : Kernel} (h : k.checkRun args = .ok (accepted, groups)) :
    groups.hasZero = false := by
  unfold checkRun at h
  obtain ⟨_, -, h⟩ := except_bind_eq_ok h
  simp only at h
  split at h
  · cases h
  split at h
  · cases h
  split at h
  · cases h
  · rename_i hz
    cases h
    exact Bool.eq_false_iff.2 hz

/-- What a run leaves in a slot that held nothing and was given nothing. -/
theorem Leaves.output {k : Kernel} {b : Option Bound} (h : Leaves k groups limits slot none .null b)
    (hk : slot.kind = .buffer type) (hg : groups.hasZero = false)
    (hw : k.program.layout.workgroupSize.count < UInt64.size)
    (hl : limits.bufferSize < UInt64.size - 4)
    (hs : IsLeast (roomFor (k.program.layout.outputBytes groups type)) size) :
    b = none ∨ HasOutput limits (k.program.layout.outputBytes groups type) size b := by
  cases h with
  | kept => exact .inl rfl
  | adopted h => cases h
  | made hd ha hx =>
    subst hd
    cases ha with
    | texture hk' _ => cases hk.symm.trans hk'
    | buffer hk' _ hn hsize =>
      cases hk.symm.trans hk'
      obtain ⟨-, rfl⟩ := counted_eq_ok_iff.1 hn
      rw [outputSize?_eq _ hg hw] at hsize
      split at hsize <;> cases hsize
      rename_i hbytes
      obtain ⟨⟨n, aligned⟩, ha, rfl⟩ := map_eq_ok hx
      obtain ⟨rfl, hle⟩ := allocateBuffer_ok ha
      have hle' := Nat.not_lt.1 (mt (lt_alignedSize_iff hl hs).2 (Nat.not_lt.2 hle))
      exact .inr ⟨hbytes, hle', n, by rw [alignedSize_of_le hl hs hle']⟩

/-- What the binding of the arguments of a run leaves in a slot that held nothing and is given
nothing. -/
theorem Leaving.output {r₁ r' : Running} (hcheck : r.kernel.checkRun args = .ok (accepted, groups))
    (he : endState (ensurePipeline r) = r₁)
    (hL : Leaving groups r₁.kernel.program.layout.params accepted.params r₁ r')
    (hslot : r.kernel.program.layout.params[i]? = some slot) (hk : slot.kind = .buffer type)
    (harg : args[i]? = some .null) (hb : r.kernel.bound? i = none)
    (hw : r.kernel.program.layout.workgroupSize.count < UInt64.size) (hd : r.device.Bounded)
    (hs : IsLeast (roomFor (r.kernel.program.layout.outputBytes groups type)) size) :
    r'.kernel.bound? i = none ∨ HasOutput r.device.limits
      (r.kernel.program.layout.outputBytes groups type) size (r'.kernel.bound? i) := by
  obtain ⟨⟨p, hp⟩, hsetup, -⟩ := ensurePipeline_frame he
  have hprogram : r₁.kernel.program = r.kernel.program := by rw [hp]
  have hempty : r₁.kernel.bound? i = none := by
    rw [hp]
    exact hb
  rcases ha : accepted.params[i]? with _ | arg
  · exact .inl ((hL.outside i (.inr ha)).trans hempty)
  · cases (checkRun_passes hcheck hslot ha).2.symm.trans harg
    have hleaves := hL.leaves i slot .null (hprogram ▸ hslot) ha
    rw [hempty, limits_of_setup hsetup] at hleaves
    rw [← hprogram] at hw hs ⊢
    exact hleaves.output hk (hasZero_of_check hcheck) hw hd hs

/-- After a run, a slot that held nothing and was given nothing is empty or has a buffer for its
output, and it has one if the run succeeds. -/
theorem run_output (hc : Coherent r.kernel)
    (hcheck : r.kernel.checkRun args = .ok (accepted, groups))
    (hslot : r.kernel.program.layout.params[i]? = some slot) (hk : slot.kind = .buffer type)
    (harg : args[i]? = some .null) (hb : r.kernel.bound? i = none)
    (hw : r.kernel.program.layout.workgroupSize.count < UInt64.size) (hd : r.device.Bounded)
    (hs : IsLeast (roomFor (r.kernel.program.layout.outputBytes groups type)) size) :
    let output := HasOutput r.device.limits (r.kernel.program.layout.outputBytes groups type) size
    Ends (fun r' => output (r'.kernel.bound? i))
      (fun _ r' => r'.kernel.bound? i = none ∨ output (r'.kernel.bound? i))
      (run others args r) := by
  intro output
  let I : Running → Prop := fun r' => r'.kernel.bound? i = none ∨ output (r'.kernel.bound? i)
  have hend : Ends I (fun _ => I) (run others args r) := by
    refine run_ends hc (fun _ _ => .inl hb) (fun f r₁ he => .inl ?_)
      (fun _ _ r₁ hcheck' he hshape => ?_) (fun h hI => ?_) (fun h hI => ?_)
      (fun _ hI => hI)
    · obtain ⟨⟨p, hp⟩, -⟩ := ensurePipeline_frame (congrArg endState he)
      rw [endState_error] at hp
      rw [hp]
      exact hb
    · cases hcheck.symm.trans hcheck'
      have hall : Ends _ _
          (bindAll others groups 0 r₁.kernel.program.layout.params accepted.params r₁) :=
        bindAll_leaving (J := fun _ _ => True) (F := fun _ _ => True)
          (Nat.le_of_eq hshape.slots.symm) (fun t arg r₂ _ _ _ _ _ _ => ?_) trivial
      · rcases hr : bindAll others groups 0 r₁.kernel.program.layout.params accepted.params r₁ with
          ⟨_, r₂⟩ | ⟨f, r₂⟩ <;> rw [hr] at hall <;>
          exact hall.1.output hcheck he hslot hk harg hb hw hd hs
      · cases bind t groups arg r₂ <;> exact trivial
    · show _ ∨ _
      rw [bound?, h.slots]
      exact hI
    · obtain ⟨_, _, _, hkernel⟩ := h.kernel
      show _ ∨ _
      rw [hkernel]
      exact hI
  have hfits : Ends _ _ (run others args r) := run_leaves hc
  rcases hr : run others args r with ⟨_, r'⟩ | ⟨f, r'⟩ <;> rw [hr] at hend hfits
  · obtain ⟨_, b, -, hbound, -⟩ := (hfits i).2 slot hslot
    rcases hend with hnone | hout
    · cases hnone.symm.trans hbound
    · exact hout
  · exact hend

/-- Outputs are sized for every invocation. A slot for a buffer that holds nothing and is given
nothing asks for the least size that has room for one element of every invocation, if 64 bits can
count the bytes and the device has buffers of that size; otherwise nothing is asked for, and
whatever fails, the slot stays empty. Over the whole life of a kernel, a run that succeeds leaves
such a buffer in each of these slots, and a run that fails leaves such a buffer or nothing. -/
theorem outputs_sized :
    (∀ {t : Turn} {groups : Extent} {type : ParamType} {r : Running} {size : Nat},
      t.slot.kind = .buffer type → r.kernel.bound? t.index = none → groups.hasZero = false →
      r.kernel.program.layout.workgroupSize.count < UInt64.size → r.device.Bounded →
      IsLeast (roomFor (r.kernel.program.layout.outputBytes groups type)) size →
      SizesOutput t r (r.kernel.program.layout.outputBytes groups type) size
        (bind t groups .null r)) ∧
    ∀ {frontEnd : FrontEnd} {source : KernelSource} {config : Config} {program : Program}
      {lines : List LogLine} {k : Kernel},
      (source.compile frontEnd config).outcome = (.ok program, lines) →
      Lived program (fun _ _ => True) k → program.layout.workgroupSize.count < UInt64.size →
      ∀ others args device log accepted groups i slot type size,
        k.checkRun args = .ok (accepted, groups) → program.layout.params[i]? = some slot →
        slot.kind = .buffer type → args[i]? = some .null → k.bound? i = none → device.Bounded →
        IsLeast (roomFor (program.layout.outputBytes groups type)) size →
        let output := HasOutput device.limits (program.layout.outputBytes groups type) size
        Ends (fun r' => output (r'.kernel.bound? i))
          (fun _ r' => r'.kernel.bound? i = none ∨ output (r'.kernel.bound? i))
          (run others args ⟨k, device, log⟩) := by
  refine ⟨fun hk hb hg hw hd hs => (bind_outputEnd hk hb hg hw hd hs).sizes, ?_⟩
  intro frontEnd source config program lines k hp hlived hw others args device log accepted groups i
    slot type size hcheck hslot hk harg hb hd hs
  obtain ⟨hc, rfl⟩ := hlived.coherent fun p => compile_uniforms hp
  exact run_output (r := ⟨k, device, log⟩) hc hcheck hslot hk harg hb hw hd hs

/-- One slot is given an output of 420 bytes, one that no device has and one that cannot be counted.
-/
theorem outputs_sized_sample :
    let r : Running := ⟨fresh Session.sampleProgram none ⟨8, 6⟩, Session.sample.device, []⟩
    let t : Turn := ⟨0, ⟨"cells", 0, .buffer (.buffer .u32)⟩, [], []⟩
    (endState (bind t ⟨3, 5, 7⟩ .null r)).device.events = [.createBuffer 0 420 "webcs_buffer"] ∧
      bind t ⟨4294967295, 1073741824, 1⟩ .null r =
        .error (.backend (.bufferLimit 18446744069414584320 268435456)) r ∧
      (∃ f r', bind t ⟨4294967295, 4294967295, 1⟩ .null r = .error (.usage f) r' ∧
        r'.kernel.bound? 0 = none) ∧
      ∃ r', run [] [.null, .group 3, .group 5, .group 7] r = .ok () r' ∧
        HasOutput r.device.limits 420 420 (r'.kernel.bound? 0) := by
  intro r t
  have least : ∀ {n : Nat}, 4 ∣ n → 4 ≤ n → IsLeast (roomFor n) n := fun hd hl =>
    ⟨⟨hd, by omega⟩, fun size hsize => Nat.le_trans (Nat.le_max_left _ 4) hsize.2⟩
  have sizes : ∀ (groups : Extent) (bytes : Nat), groups.hasZero = false →
      Session.sampleProgram.layout.outputBytes groups (.buffer .u32) = bytes → 4 ∣ bytes →
      4 ≤ bytes → SizesOutput t r bytes bytes (bind t groups .null r) := by
    rintro groups _ hg rfl hdvd hle
    exact outputs_sized.1 rfl rfl hg (by decide) (by decide) (least hdvd hle)
  have hk : Lived Session.sampleProgram (fun _ _ => True) r.kernel :=
    .create (d := Session.sample.device) (k := r.kernel) rfl
  have hbytes : Session.sampleProgram.layout.outputBytes ⟨3, 5, 7⟩ (.buffer .u32) = 420 := by decide
  have hrun : Ends _ _ (run [] [.null, .group 3, .group 5, .group 7] r) :=
    outputs_sized.2 Session.compile_sample hk (by decide) _ _ _ _
      ⟨[.null], some ⟨3, 5, 7⟩, none⟩ ⟨3, 5, 7⟩ 0 _ (.buffer .u32) 420 rfl rfl rfl rfl rfl
      (by decide) (hbytes ▸ least (by decide) (by decide))
  have hlimit := (sizes ⟨4294967295, 1073741824, 1⟩ 18446744069414584320 (by decide) (by decide)
    (by decide) (by decide)).limit (by decide) (by decide)
  rw [Nat.min_eq_right (by decide)] at hlimit
  have huncounted := sizes ⟨4294967295, 4294967295, 1⟩ 73786976260478468100 (by decide) (by decide)
    (by decide) (by decide)
  obtain ⟨f, r', hf⟩ := huncounted.usage_iff.2 (by decide)
  refine ⟨(sizes ⟨3, 5, 7⟩ 420 (by decide) (by decide) (by decide) (by decide)).request
    (by decide) (by decide), hlimit, ⟨f, r', hf, by rw [huncounted.kept _ r' hf]; rfl⟩, ?_⟩
  rcases hr : run [] [.null, .group 3, .group 5, .group 7] r with ⟨_, r'⟩ | ⟨f, r'⟩
  · rw [hr, hbytes] at hrun
    exact ⟨r', rfl, hrun⟩
  · have hok : failure? (run [] [.null, .group 3, .group 5, .group 7] r) = none := by decide +kernel
    rw [hr] at hok
    cases hok

end Runs

end Kernel

end ComputeKernel
