import ComputeKernel.Proofs.Housing

/-!
# What a run uploads

Host data is uploaded to the start of the buffer in its slot, with zeros up to the next multiple of
four bytes, and the rest of the buffer is left as it is (`received`). A run uploads its host
arguments in the order of their slots and changes no buffer in a slot otherwise. So what such a
buffer holds after a run is known from what it held before and from the arguments (`run_received`).
A buffer that is new holds zeros before.
-/

namespace ComputeKernel

open Device Relation RunM Shader

section Uploads

/-- What a buffer holds once bytes are uploaded to it: the bytes, zeros up to the next multiple of
four, and then what it held before. -/
def received (old bytes : List UInt8) : List UInt8 :=
  let sent := bytes ++ List.replicate ((4 - bytes.length % 4) % 4) 0
  sent ++ old.drop sent.length

/-- What a buffer held on a device, which is zeros if it was not there yet. -/
def Device.heldBefore (d : Device) (b : Buffer) : List UInt8 :=
  if b.number < d.buffers.length then d.bufferContents b.number else List.replicate b.size 0

/-- Whether a slot of a kernel holds a buffer. -/
def Kernel.HoldsBuffer (k : Kernel) (j n : Nat) : Prop :=
  (k.bound? j).map (·.resource.id) = some (.buffer n)

instance (k : Kernel) (j n : Nat) : Decidable (k.HoldsBuffer j n) :=
  inferInstanceAs (Decidable (_ = _))

/-- The bytes of the host arguments, numbered from `index` on, that go to a buffer because it is in
their slots. -/
def uploadsTo {ρ : Type} (k : Kernel) (n : Nat) : (index : Nat) → List (Argument ρ) →
    List (List UInt8)
  | _, [] => []
  | index, .host data :: args =>
    if k.HoldsBuffer index n then data.toBytes :: uploadsTo k n (index + 1) args
    else uploadsTo k n (index + 1) args
  | index, _ :: args => uploadsTo k n (index + 1) args

variable {k k' : Kernel} {d d' : Device} {b : Buffer} {bytes : List UInt8} {n index : Nat}

theorem received_nil (old : List UInt8) : received old [] = old := by
  simp [received]

theorem aligned_eq (hb : bytes ≠ []) (hl : bytes.length < UInt64.size - 4) :
    aligned bytes = bytes ++ List.replicate ((4 - bytes.length % 4) % 4) 0 := by
  have hpos := List.length_pos_iff.2 hb
  have hpad : alignedSize bytes.length - bytes.length = (4 - bytes.length % 4) % 4 := by
    unfold alignedSize
    omega
  rw [aligned, filled, hpad]

theorem uploadBuffer_contents {u : Unit} (h : uploadBuffer b bytes d = .ok u d')
    (hl : b.size < UInt64.size - 4) (hn : n < d.buffers.length) :
    d'.bufferContents n =
      if b.number = n then received (d.bufferContents n) bytes else d.bufferContents n := by
  have hb := uploadBuffer_ok h
  by_cases he : bytes = []
  · rw [if_pos he] at hb
    rw [he, received_nil, ite_self]
    exact bufferContents_congr (by rw [hb])
  have hfit : bytes.length ≤ b.size := by
    rcases uploadBuffer_cases b bytes d with ⟨-, h'⟩ | ⟨he', -⟩ | ⟨-, hl, -⟩
    · cases h.symm.trans h'
    · exact absurd he' he
    · exact hl
  rw [if_neg he] at hb
  by_cases hbn : b.number = n
  · subst hbn
    rw [if_pos rfl, bufferContents_modify hb hn, aligned_eq he (by omega)]
    rfl
  · rw [if_neg hbn]
    exact bufferContents_congr (by simp [hb, hbn])

theorem uploadsTo_append {ρ : Type} (k : Kernel) (n : Nat) (xs ys : List (Argument ρ)) :
    ∀ index, uploadsTo k n index (xs ++ ys) =
      uploadsTo k n index xs ++ uploadsTo k n (index + xs.length) ys := by
  induction xs with
  | nil => simp [uploadsTo]
  | cons arg xs ih =>
    intro index
    have hrest := ih (index + 1)
    rw [Nat.add_assoc, Nat.add_comm 1] at hrest
    cases arg with
    | host data =>
      simp only [List.cons_append, uploadsTo, hrest, List.length_cons]
      split <;> rfl
    | _ => exact hrest

theorem uploadsTo_congr {ρ : Type} {args : List (Argument ρ)}
    (h : ∀ j < args.length, k'.bound? (index + j) = k.bound? (index + j)) :
    uploadsTo k' n index args = uploadsTo k n index args := by
  induction args generalizing index with
  | nil => rfl
  | cons arg args ih =>
    have hrest : uploadsTo k' n (index + 1) args = uploadsTo k n (index + 1) args := by
      refine ih fun j hj => ?_
      rw [Nat.add_assoc, Nat.add_comm 1]
      exact h (j + 1) (Nat.succ_lt_succ hj)
    cases arg with
    | host data =>
      have hh : k'.HoldsBuffer index n = k.HoldsBuffer index n := by
        rw [Kernel.HoldsBuffer, Kernel.HoldsBuffer, ← Nat.add_zero index,
          h 0 (Nat.zero_lt_succ _)]
      simp only [uploadsTo, hh, hrest]
    | _ => exact hrest

theorem uploadsTo_eq_nil {ρ : Type} {args : List (Argument ρ)}
    (h : ∀ j data, args[j]? = some (.host data) → ¬ k.HoldsBuffer (index + j) n) :
    uploadsTo k n index args = [] := by
  induction args generalizing index with
  | nil => rfl
  | cons arg args ih =>
    have hrest : uploadsTo k n (index + 1) args = [] := by
      refine ih fun j data hj => ?_
      rw [Nat.add_assoc, Nat.add_comm 1]
      exact h (j + 1) data hj
    cases arg with
    | host data =>
      have h₀ : ¬ k.HoldsBuffer index n := h 0 data rfl
      simp [uploadsTo, h₀, hrest]
    | _ => exact hrest

end Uploads

namespace Kernel

section Turns

variable {t : Turn} {groups : Extent} {slot : ParamSlot} {arg : Argument Resource} {x : Resource}
  {k : Kernel} {d d' : Device} {r r' : Running} {b : Buffer} {n : Nat}

/-- What a resource in a slot is sent changes a buffer only if it is in the slot and the argument is
host data. -/
theorem Sends.contents {send : Work Unit} {u : Unit} (hs : Sends slot arg x send)
    (h : send d = .ok u d') (hx : d.Has x) (hd : d.Bounded) {j : Nat}
    (hb : (k.bound? j).map (·.resource.id) = some x.id) (hn : n < d.buffers.length) :
    d'.bufferContents n = (uploadsTo k n j [arg]).foldl received (d.bufferContents n) := by
  cases hs with
  | null _ =>
    cases h
    rfl
  | host data b =>
    have hsize : b.size < UInt64.size - 4 := Nat.lt_of_le_of_lt hx.2 hd
    have hh : k.HoldsBuffer j n ↔ b.number = n := by
      rw [HoldsBuffer, hb]
      simp [Resource.id]
    rw [uploadBuffer_contents h hsize hn]
    simp only [uploadsTo, hh]
    split <;> rfl
  | @image image _ _ _ texels _ _ y =>
    refine bufferContents_congr ?_
    have hend := uploadTexture_end y texels image.width image.height d
    rw [h, endState_ok] at hend
    rcases hend with hend | hend
    · rw [hend]
    · exact hend.spares.buffers n (by simp)

theorem Asks.contents {bound : Option Bound} {ask : Work Resource}
    (ha : Asks k groups slot bound arg ask) (h : ask d = .ok x d')
    (hb : b.number < d.buffers.length ∨ x = .buffer b) :
    b.number < d'.buffers.length ∧ d'.bufferContents b.number = d.heldBefore b := by
  unfold heldBefore
  by_cases hn : b.number < d.buffers.length
  · obtain ⟨more, hm⟩ := (ha.creates h).grows.buffers
    rw [if_pos hn]
    refine ⟨by rw [hm, List.length_append]; omega, ?_⟩
    exact bufferContents_congr ((ha.creates h).grows.getElem? hn)
  · obtain rfl := hb.resolve_left hn
    rw [if_neg hn]
    cases ha with
    | buffer _ _ _ | host _ =>
      obtain ⟨b', hb', he⟩ := map_eq_ok h
      cases he
      exact allocateBuffer_contents hb'
    | texture _ _ | image _ _ _ =>
      obtain ⟨y, -, he⟩ := map_eq_ok h
      cases he

/-- What the binding of an argument makes of a buffer that is there, or in the slot afterwards. -/
theorem bind_contents (hi : t.index < r.kernel.slots.length) (hd : r.device.Bounded)
    (hk : Stocked r.device r.kernel) (ha : ∀ x, arg = .resource x → r.device.Has x)
    (h : bind t groups arg r = .ok () r')
    (hb : b.number < r.device.buffers.length ∨
      ∃ own, r'.kernel.bound? t.index = some ⟨.buffer b, own⟩) :
    r'.device.bufferContents b.number =
      (uploadsTo r'.kernel b.number t.index [arg]).foldl received (r.device.heldBefore b) := by
  -- Unless a resource is made, the buffer was there before the turn.
  have hthere : b.number < r.device.buffers.length →
      r.device.heldBefore b = r.device.bufferContents b.number := fun hn => if_pos hn
  rcases bind_ok_cases h with ⟨y, send, d, hy, -, hs, hsend, rfl⟩ | ⟨x, hx, rfl⟩ |
    ⟨ask, x, d, send, d', hask, hx, hs, hsend, rfl⟩
  · have hn : b.number < r.device.buffers.length := by
      rcases hb with hb | ⟨own, hb⟩
      · exact hb
      · exact (hk.slots _ _ hb).1.lt
    rw [hthere hn]
    exact hs.contents hsend (hk.slots _ _ hy) hd (by rw [hy]; rfl) hn
  · have hn : b.number < r.device.buffers.length := by
      rcases hb with hb | ⟨own, hb⟩
      · exact hb
      · rw [bound?_replaced hi] at hb
        cases hb
        exact (ha _ hx).1.lt
    rw [hthere hn, hx]
    exact bufferContents_congr (by rw [(replaced_frame t _ r).2.2])
  · have hr := replaced_retains t ⟨x, .owned⟩ { r with device := d }
    obtain ⟨-, -, hbuffers⟩ := replaced_frame t ⟨x, .owned⟩ { r with device := d }
    have hbound : (replaced t ⟨x, .owned⟩ { r with device := d }).kernel.bound? t.index = _ :=
      bound?_replaced hi
    have hlimits : (replaced t ⟨x, .owned⟩ { r with device := d }).device.Bounded := by
      rw [Bounded, hr.limits]
      exact (hask.creates hx).limits ▸ hd
    have hmade : b.number < r.device.buffers.length ∨ x = .buffer b := by
      rcases hb with hb | ⟨own, hb⟩
      · exact .inl hb
      · cases hbound.symm.trans hb
        exact .inr rfl
    obtain ⟨hn, hheld⟩ := hask.contents hx hmade
    have hsent := hs.contents hsend
      ((has_of_creates hd (hask.creates hx) (hask.within hx)).retained hr) hlimits
      (by rw [hbound]; rfl) (by rw [hbuffers]; exact hn)
    rw [hsent, ← hheld]
    congr 1
    exact bufferContents_congr (by rw [hbuffers])

/-- What is in a slot after a turn was there before, or it is the argument, or it is new. -/
theorem bind_origin {own : Ownership} (hi : t.index < r.kernel.slots.length)
    (h : bind t groups arg r = .ok () r')
    (hb : r'.kernel.bound? t.index = some ⟨.buffer b, own⟩) :
    r.kernel.bound? t.index = some ⟨.buffer b, own⟩ ∨ arg = .resource (.buffer b) ∨
      r.device.buffers.length ≤ b.number := by
  rcases bind_ok_cases h with ⟨_, _, d, -, -, -, -, rfl⟩ | ⟨x, hx, rfl⟩ |
    ⟨_, x, d, _, d', hask, hx, -, -, rfl⟩
  · exact .inl hb
  · rw [bound?_replaced hi] at hb
    cases hb
    exact .inr (.inl hx)
  · have hbound : (replaced t ⟨x, .owned⟩ { r with device := d }).kernel.bound? t.index = _ :=
      bound?_replaced hi
    cases hbound.symm.trans hb
    exact .inr (.inr (Nat.le_of_not_lt (hask.creates hx).fresh))

end Turns

section Runs

variable {t : Turn} {groups : Extent} {arg : Argument Resource} {args : List (Argument Resource)}
  {r r₁ r₂ : Running} {b : Buffer}

/-- What some arguments make of the buffers that were there before them and of those in the slots.
-/
structure Uploads (args : List (Argument Resource)) (r r' : Running) : Prop where
  length : r'.kernel.slots.length = r.kernel.slots.length
  retains : Retains r.device r'.device
  stocked : Stocked r'.device r'.kernel
  contents : ∀ b, (b.number < r.device.buffers.length ∨
      ∃ j own, r'.kernel.bound? j = some ⟨.buffer b, own⟩) →
    r'.device.bufferContents b.number =
      (uploadsTo r'.kernel b.number 0 args).foldl received (r.device.heldBefore b)

theorem Uploads.nil (hk : Stocked r.device r.kernel) : Uploads [] r r where
  length := rfl
  retains := .of_eq rfl rfl
  stocked := hk
  contents b hb := by
    have hn : b.number < r.device.buffers.length :=
      hb.elim id fun ⟨j, own, hb⟩ => (hk.slots j _ hb).1.lt
    exact (if_pos hn).symm

theorem Uploads.heldBefore (h : Uploads args r r₁)
    (hb : b.number < r₁.device.buffers.length → b.number < r.device.buffers.length ∨
      ∃ j own, r₁.kernel.bound? j = some ⟨.buffer b, own⟩) :
    r₁.device.heldBefore b =
      (uploadsTo r₁.kernel b.number 0 args).foldl received (r.device.heldBefore b) := by
  by_cases hn : b.number < r₁.device.buffers.length
  · rw [Device.heldBefore, if_pos hn, h.contents b (hb hn)]
  · have hnone : uploadsTo r₁.kernel b.number 0 args = [] := by
      refine uploadsTo_eq_nil fun j data _ hj => hn ?_
      obtain ⟨⟨x, own⟩, hx, he⟩ := Option.map_eq_some_iff.1 hj
      cases x with
      | texture _ => cases he
      | buffer b' =>
        rw [← ResourceId.buffer.inj he]
        exact (h.stocked.slots _ _ hx).1.lt
    have hle := h.retains.length
    rw [hnone, List.foldl_nil, Device.heldBefore, Device.heldBefore, if_neg hn, if_neg (by omega)]

theorem Uploads.bind (h : Uploads args r r₁) (ht : args.length = t.index)
    (hi : t.index < r.kernel.slots.length) (hd : r.device.Bounded)
    (ha : ∀ x, arg = .resource x → r.device.Has x)
    (hb : Kernel.bind t groups arg r₁ = .ok () r₂) : Uploads (args ++ [arg]) r r₂ := by
  have hi₁ : t.index < r₁.kernel.slots.length := by rwa [h.length]
  have hd₁ : r₁.device.Bounded := by rwa [Bounded, h.retains.limits]
  have ha₁ : ∀ x, arg = .resource x → r₁.device.Has x := fun x hx => (ha x hx).retained h.retains
  have hst := bind_stocked groups hi₁ hd₁ h.stocked ha₁
  have hT := bind_turned groups arg hi₁
  rw [hb, endState_ok] at hst hT
  refine ⟨hT.length.trans h.length, h.retains.trans hst.1, hst.2, fun b hslot => ?_⟩
  have hbefore : uploadsTo r₂.kernel b.number 0 args = uploadsTo r₁.kernel b.number 0 args :=
    uploadsTo_congr fun j hj => hT.others _ (by omega)
  rw [uploadsTo_append, List.foldl_append, hbefore, Nat.zero_add, ht, ← h.heldBefore]
  · refine bind_contents hi₁ hd₁ h.stocked ha₁ hb ?_
    rcases hslot with hn | ⟨j, own, hj⟩
    · exact .inl (Nat.lt_of_lt_of_le hn h.retains.length)
    · by_cases hjt : j = t.index
      · exact .inr ⟨own, hjt ▸ hj⟩
      · rw [hT.others j hjt] at hj
        exact .inl (h.stocked.slots j _ hj).1.lt
  · intro hn
    rcases hslot with hn | ⟨j, own, hj⟩
    · exact .inl hn
    · by_cases hjt : j = t.index
      · subst hjt
        rcases bind_origin hi₁ hb hj with hj | hx | hle
        · exact .inr ⟨_, own, hj⟩
        · exact .inl (ha _ hx).1.lt
        · omega
      · rw [hT.others j hjt] at hj
        exact .inr ⟨j, own, hj⟩

theorem bindAll_uploads {others : List ResourceId} {slots : List ParamSlot} {r' : Running}
    (hl : slots.length ≤ r.kernel.slots.length) (hargs : args.length ≤ slots.length)
    (hd : r.device.Bounded) (hk : Stocked r.device r.kernel)
    (ha : ∀ x, .resource x ∈ args → r.device.Has x)
    (h : bindAll others groups 0 slots args r = .ok () r') : Uploads args r r' := by
  have hall : Ends (fun r' => Uploads (args.take (0 + min slots.length args.length)) r r')
      (fun _ _ => True) (bindAll others groups 0 slots args r) := by
    refine bindAll_ends (I := fun j r' => Uploads (args.take j) r r') slots args 0 r ?_ (.nil hk)
    intro j arg t r₁ hs harg hj hI
    have hslot := (List.getElem?_eq_some_iff.1 hs).1
    have hj' := (List.getElem?_eq_some_iff.1 harg).1
    rcases hr : bind t groups arg r₁ with ⟨_, r₂⟩ | ⟨f, r₂⟩
    · have hturn := hI.bind (t := t) (by rw [List.length_take]; omega) (by omega)
        hd (fun x hx => ha x (hx ▸ List.mem_of_getElem? harg)) hr
      have htake : args.take (t.index + 1) = args.take t.index ++ [arg] := by
        rw [List.take_add_one, show t.index = j by omega, harg]
        rfl
      show Uploads (args.take (t.index + 1)) r r₂
      rwa [htake]
    · trivial
  rw [h, Nat.zero_add, Nat.min_eq_right hargs, List.take_length] at hall
  exact hall

/-- What the buffers in the slots of a kernel hold after the host arguments of a run. -/
def Received {ρ : Type} (k : Kernel) (args : List (Argument ρ)) (d d' : Device) : Prop :=
  ∀ j b own, k.bound? j = some ⟨.buffer b, own⟩ → d'.bufferContents b.number =
    (uploadsTo k b.number 0 args).foldl received (d.heldBefore b)

theorem Received.frame {ρ : Type} {k k' : Kernel} {args : List (Argument ρ)} {d d₁ d₂ : Device}
    (h : Received k args d d₁) (hs : k'.slots = k.slots)
    (hb : ∀ j b own, k.bound? j = some ⟨.buffer b, own⟩ →
      d₂.bufferContents b.number = d₁.bufferContents b.number) : Received k' args d d₂ := by
  have hbound : ∀ j, k'.bound? j = k.bound? j := fun j => by rw [bound?, bound?, hs]
  intro j b own hj
  rw [hbound] at hj
  rw [hb j b own hj, h j b own hj, uploadsTo_congr fun j _ => hbound _]

/-- Arguments that have no slot are sent to no buffer. -/
theorem uploadsTo_append_outside {k : Kernel} {n : Nat} (params rest : List (Argument Resource))
    (hl : k.slots.length ≤ params.length) :
    uploadsTo k n 0 (params ++ rest) = uploadsTo k n 0 params := by
  have hrest : uploadsTo k n (0 + params.length) rest = [] := by
    refine uploadsTo_eq_nil fun j data _ hj => ?_
    rw [HoldsBuffer, bound?, List.getElem?_eq_none (by omega)] at hj
    cases hj
  rw [uploadsTo_append, hrest, List.append_nil]

variable {past : List Event} {base held : List ResourceId} {others : List Kernel}

/-- The work on uniforms leaves what is in the slots alone. -/
theorem UniformStep.slot {pending : List ResourceId} (h : UniformStep r r₁)
    (hs : RunSound past base others held pending r) {j : Nat} {own : Ownership}
    (hb : r.kernel.bound? j = some ⟨.buffer b, own⟩) :
    r₁.device.bufferContents b.number = r.device.bufferContents b.number := by
  have hid : .buffer b.number ∈ inUse (r.kernel :: others) (held ++ pending) :=
    mem_inUse_cons.2 (.inl (mem_resources hb))
  have hn : b.number < r.device.buffers.length := (hs.allocated _).2 (hs.live _ hid).1
  cases h with
  | lost h => exact bufferContents_congr (h.grows.getElem? hn)
  | fill _ _ _ _ h => exact bufferContents_congr (h.grows.getElem? hn)
  | write hu _ =>
    refine bufferContents_congr ((Writes.buffer _ _).spares.buffers _ fun hm => ?_)
    have hu := (hs.uniforms _ (List.mem_append_left _ (mem_uniformIds hu))).2
    exact hu (List.mem_singleton.1 hm ▸ hid)
  | note line => rfl

/-- The buffers in the slots after a run that succeeds. -/
theorem run_received (hc : Coherent r.kernel) (hd : r.device.Bounded)
    (hk : Stocked r.device r.kernel) (ha : ∀ x, .resource x ∈ args → r.device.Has x)
    (hs : RunSound past base others held (argumentIds args) r) {r' : Running}
    (h : run (others.flatMap resources ++ held) args r = .ok () r') :
    r'.kernel.Received args r.device r'.device := by
  let I : Running → Prop := fun r' => RunSound past base others held [] r' ∧
    r'.kernel.Received args r.device r'.device
  have hend : Ends I (fun _ _ => True) (run (others.flatMap resources ++ held) args r) := by
    refine run_ends hc (fun _ _ => trivial) (fun _ _ _ => trivial)
      (fun run groups r₁ hcheck he hshape => ?_) (fun h hI => ?_) (fun h hI => ?_)
      fun _ _ => trivial
    · rcases hx : bindAll (others.flatMap resources ++ held) groups 0
          r₁.kernel.program.layout.params run.params r₁ with ⟨_, r₂⟩ | ⟨f, r₂⟩
      case error => trivial
      obtain ⟨⟨p, hkernel⟩, -, hbuffers, -⟩ := ensurePipeline_frame he
      obtain ⟨hret, hst⟩ := ensurePipeline_stocked he hk
      obtain ⟨hparams, hlength⟩ := split_params (checkRun_eq_ok hcheck).1
      have hslots := hshape.slots
      have hprogram : r₁.kernel.program = r.kernel.program := by rw [hkernel]
      have hall : run.params.length = r₁.kernel.program.layout.params.length := by
        rw [hparams, hprogram, List.length_take]
        omega
      have hsub : ∀ id ∈ argumentIds run.params, id ∈ argumentIds args := by
        rw [hparams]
        exact (List.Sublist.filterMap _ (List.take_sublist _ _)).subset
      have hsound : RunSound past base others held [] (endState (bindAll
          (others.flatMap resources ++ held) groups 0 r₁.kernel.program.layout.params
          run.params r₁)) := ((he ▸ hs.pipeline).mono hsub).bindAll (by omega)
      have hup : Uploads run.params r₁ r₂ := bindAll_uploads (by omega) (by omega)
        (by rwa [Bounded, hret.limits]) hst (fun x hx => (ha x (List.mem_of_mem_take
          (hparams ▸ hx))).retained hret) hx
      rw [hx] at hsound
      refine ⟨hsound, fun j b own hj => ?_⟩
      have hargs : args = run.params ++ args.drop r.kernel.program.layout.params.length := by
        rw [hparams, List.take_append_drop]
      have hheld : r₁.device.heldBefore b = r.device.heldBefore b := by
        simp only [Device.heldBefore, bufferContents, hbuffers]
      rw [hargs, uploadsTo_append_outside _ _ (by rw [hup.length]; omega), ← hheld]
      exact hup.contents b (.inr ⟨j, own, hj⟩)
    · exact ⟨hI.1.uniform h, hI.2.frame h.slots fun j b own hb => h.slot hI.1 hb⟩
    · obtain ⟨_, _, _, hkernel⟩ := h.kernel
      refine ⟨hI.1.launch h, hI.2.frame (by rw [hkernel]) fun j b own _ => ?_⟩
      exact bufferContents_congr (by rw [h.memory.1])
  rw [h] at hend
  exact hend.2

end Runs

end Kernel

end ComputeKernel
