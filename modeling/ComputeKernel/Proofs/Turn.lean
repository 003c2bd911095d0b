import ComputeKernel.Kernel.Run
import ComputeKernel.Proofs.Effect

/-!
# The binding of an argument

An argument is refused, or its slot keeps what it holds, or the slot is given the argument itself or
a resource that is made for it; what a kept or a new resource is sent follows. `Binds` says this
once, with what is asked of the device and how it ends (`bind_binds`). So the binding of an argument
is a sequence of the steps of `TurnStep` (`bind_steps`), and everything that binding keeps is read
off these steps. What was bound to a slot is given up in one place (`replaced`), and it is destroyed
there only if the kernel made it and nobody refers to it (`replaced_cases`).
-/

namespace ComputeKernel

open Device Relation

namespace RunM

variable {α : Type} {w : Work α} {r : Running}

theorem onDevice_of_ok {a : α} {d : Device} (h : w r.device = .ok a d) :
    onDevice w r = .ok a { r with device := d } := by
  unfold onDevice
  rw [h]

theorem onDevice_of_error {f : Failure} {d : Device} (h : w r.device = .error f d) :
    onDevice w r = .error f { r with device := d } := by
  unfold onDevice
  rw [h]

theorem onDevice_eq_ok {a : α} {r' : Running} (h : onDevice w r = .ok a r') :
    ∃ d, w r.device = .ok a d ∧ r' = { r with device := d } := by
  unfold onDevice at h
  rcases hw : w r.device with ⟨_, d⟩ | ⟨f, d⟩ <;> rw [hw] at h <;> cases h
  exact ⟨d, rfl, rfl⟩

theorem onDevice_eq_error {f : Failure} {r' : Running} (h : onDevice w r = .error f r') :
    ∃ d, w r.device = .error f d ∧ r' = { r with device := d } := by
  unfold onDevice at h
  rcases hw : w r.device with ⟨_, d⟩ | ⟨g, d⟩ <;> rw [hw] at h <;> cases h
  exact ⟨d, rfl, rfl⟩

theorem endState_onDevice :
    endState (onDevice w r) = { r with device := endState (w r.device) } := by
  rcases h : w r.device with ⟨a, d⟩ | ⟨f, d⟩
  · rw [onDevice_of_ok h]
    rfl
  · rw [onDevice_of_error h]
    rfl

end RunM

open RunM

namespace Kernel

section Replacement

variable (t : Turn) (new : Bound) (r : Running)

/-- The state after a resource was bound to a slot. -/
def rebound : Running :=
  { r with kernel := { r.kernel with slots := r.kernel.slots.set t.index (some new) } }

/-- The state after a resource was bound to a slot and what was bound there was given up. -/
def replaced : Running :=
  match r.kernel.bound? t.index with
  | some old =>
    if old.ownership = .owned ∧ isHeld t (rebound t new r).kernel old.resource.id = false then
      { rebound t new r with device := r.device.destroy old.resource.id }
    else rebound t new r
  | none => rebound t new r

theorem replace_eq : replace t new r = .ok () (replaced t new r) := by
  unfold replaced replace
  rw [get_bind]
  rcases r.kernel.bound? t.index with _ | old <;> rfl

/-- What was bound to a slot is destroyed only if the kernel made it and nobody refers to it. -/
theorem replaced_cases : replaced t new r = rebound t new r ∨
    ∃ old, r.kernel.bound? t.index = some old ∧ old.ownership = .owned ∧
      isHeld t (rebound t new r).kernel old.resource.id = false ∧
      replaced t new r =
        { rebound t new r with device := r.device.destroy old.resource.id } := by
  unfold replaced
  split
  · rename_i old hb
    split
    · rename_i hc
      exact .inr ⟨old, hb, hc.1, hc.2, rfl⟩
    · exact .inl rfl
  · exact .inl rfl

theorem replaced_kernel : (replaced t new r).kernel = (rebound t new r).kernel := by
  rcases replaced_cases t new r with h | ⟨_, -, -, -, h⟩ <;> rw [h]

/-- What is destroyed keeps its memory. -/
theorem replaced_frame : (replaced t new r).log = r.log ∧
    (replaced t new r).device.setup = r.device.setup ∧
      (replaced t new r).device.buffers = r.device.buffers := by
  rcases replaced_cases t new r with h | ⟨_, -, -, -, h⟩ <;> rw [h] <;> exact ⟨rfl, rfl, rfl⟩

end Replacement

section Binding

/-- Whether an argument is bound to a slot that holds `b` without another resource for it. -/
def keepsSlot (b : Option Bound) : Argument Resource → Bool
  | .null => b.isSome
  | .resource r => b == some ⟨r, .borrowed⟩
  | .host data => (b.bind (·.resource.buffer?)).any fun x => decide (data.toBytes.length ≤ x.size)
  | .image image => (b.bind (·.resource.texture?)).any (·.fits image.width image.height)
  | .group _ | .uniforms _ => true

/-- The extents of a texture for an image in place of what a slot holds. -/
def grown (b : Option Bound) (image : Image) : UInt32 × UInt32 :=
  match b.bind (·.resource.texture?) with
  | some old => (max old.width image.width, max old.height image.height)
  | none => (image.width, image.height)

/-- Why an argument is refused before anything is done for it. -/
inductive Refuses (k : Kernel) (groups : Extent) (slot : ParamSlot) (b : Option Bound) :
    Argument Resource → Failure → Prop
  | invocations {type : ParamType} {f : Failure} (hk : slot.kind = .buffer type) (hb : b = none)
    (h : k.program.layout.invocations = .error f) : Refuses k groups slot b .null f
  | output {type : ParamType} {n : Nat} (hk : slot.kind = .buffer type) (hb : b = none)
    (hn : k.program.layout.invocations = .ok n)
    (h : outputSize? n groups type.elementBytes = none) :
    Refuses k groups slot b .null (.usage (.outputTooLarge groups slot.name))
  | texels {image : Image} {type : ParamType} {format : ImageFormat} {access : Access}
    {f : Failure} (hk : slot.kind = .texture type format access)
    (h : image.texels format = .error f) : Refuses k groups slot b (.image image) f
  | image {image : Image} {type : ParamType} (hk : slot.kind = .buffer type) :
    Refuses k groups slot b (.image image)
      (.usage (.unbindableArgument (Argument.image image : Argument Resource).dump slot.name))
  | trailer {arg : Argument Resource} (h : arg.isParamValue = false) :
    Refuses k groups slot b arg (.usage (.unbindableArgument arg.dump slot.name))

/-- What a slot that cannot keep what it holds asks of the device for an argument. -/
inductive Asks (k : Kernel) (groups : Extent) (slot : ParamSlot) (b : Option Bound) :
    Argument Resource → Work Resource → Prop
  | buffer {type : ParamType} {n size : Nat} (hk : slot.kind = .buffer type) (hb : b = none)
    (hn : k.program.layout.invocations = .ok n)
    (h : outputSize? n groups type.elementBytes = some size) :
    Asks k groups slot b .null (.buffer <$> allocateBuffer size)
  | texture {type : ParamType} {format : ImageFormat} {access : Access}
    (hk : slot.kind = .texture type format access) (hb : b = none) :
    Asks k groups slot b .null
      (.texture <$> allocateTexture k.target.width k.target.height format)
  | host {data : HostData} (hb : keepsSlot b (.host data) = false) :
    Asks k groups slot b (.host data) (.buffer <$> allocateBuffer data.toBytes.length)
  | image {image : Image} {type : ParamType} {format : ImageFormat} {access : Access}
    {texels : List UInt8} (hk : slot.kind = .texture type format access)
    (ht : image.texels format = .ok texels) (hb : keepsSlot b (.image image) = false) :
    Asks k groups slot b (.image image)
      (.texture <$> allocateTexture (grown b image).1 (grown b image).2 format)

/-- What a resource is sent for an argument. -/
inductive Sends (slot : ParamSlot) : Argument Resource → Resource → Work Unit → Prop
  | null (x : Resource) : Sends slot .null x (pure ())
  | host (data : HostData) (b : Buffer) :
    Sends slot (.host data) (.buffer b) (uploadBuffer b data.toBytes)
  | image {image : Image} {type : ParamType} {format : ImageFormat} {access : Access}
    {texels : List UInt8} (hk : slot.kind = .texture type format access)
    (h : image.texels format = .ok texels) (x : Texture) :
    Sends slot (.image image) (.texture x) (uploadTexture x texels image.width image.height)

/-- How the binding of an argument ends. -/
inductive Binds (t : Turn) (groups : Extent) (arg : Argument Resource) (r : Running) :
    EStateM.Result Failure Running Unit → Prop
  | refused {f : Failure} (h : Refuses r.kernel groups t.slot (r.kernel.bound? t.index) arg f) :
    Binds t groups arg r (.error f r)
  | kept {b : Bound} {send : Work Unit} (hb : r.kernel.bound? t.index = some b)
    (hk : keepsSlot (some b) arg = true) (hs : Sends t.slot arg b.resource send) :
    Binds t groups arg r (onDevice send r)
  | adopted {x : Resource} (h : arg = .resource x) :
    Binds t groups arg r (.ok () (replaced t ⟨x, .borrowed⟩ r))
  /-- The device makes no resource, or one that it counts as a failure. -/
  | unmade {ask : Work Resource} {f : Failure} {d : Device}
    (ha : Asks r.kernel groups t.slot (r.kernel.bound? t.index) arg ask)
    (h : ask r.device = .error f d) : Binds t groups arg r (.error f { r with device := d })
  | made {ask : Work Resource} {send : Work Unit} {x : Resource} {d : Device}
    (ha : Asks r.kernel groups t.slot (r.kernel.bound? t.index) arg ask)
    (h : ask r.device = .ok x d) (hs : Sends t.slot arg x send) :
    Binds t groups arg r (onDevice send (replaced t ⟨x, .owned⟩ { r with device := d }))

variable {t : Turn} {groups : Extent} {arg : Argument Resource} {r : Running}

/-- A resource is made for a slot, bound to it and sent something. -/
theorem binds_of_asks {α : Type} {w : Work α} {resource : α → Resource} {send : α → Work Unit}
    {next : α → RunM Unit}
    (ha : Asks r.kernel groups t.slot (r.kernel.bound? t.index) arg (resource <$> w))
    (hs : ∀ a, Sends t.slot arg (resource a) (send a))
    (hn : ∀ a r₁, next a r₁ = onDevice (send a) (replaced t ⟨resource a, .owned⟩ r₁)) :
    Binds t groups arg r ((onDevice w >>= next) r) := by
  rcases h : w r.device with ⟨a, d⟩ | ⟨f, d⟩
  · rw [bind_of_ok (onDevice_of_ok h), hn]
    exact .made ha (bind_of_ok h) (hs a)
  · rw [bind_of_error (onDevice_of_error h)]
    exact .unmade ha (bind_of_error h)

theorem keep_binds : Binds t groups .null r (keep t groups r) := by
  have hn : ∀ {α : Type} {resource : α → Resource} (a : α) (r₁ : Running),
      replace t ⟨resource a, .owned⟩ r₁ =
        onDevice (pure ()) (replaced t ⟨resource a, .owned⟩ r₁) := fun _ _ => replace_eq _ _ _
  unfold keep
  rw [get_bind]
  rcases hb : r.kernel.bound? t.index with _ | b
  · simp only [Option.isNone_none, if_true]
    unfold makeOutput
    rw [get_bind]
    rcases hk : t.slot.kind with type | ⟨type, format, access⟩
    · rcases hi : r.kernel.program.layout.invocations with f | n
      · exact .refused (.invocations hk hb hi)
      dsimp only
      rw [bind_of_ok (orFail_of_ok rfl r)]
      rcases hs : outputSize? n groups type.elementBytes with _ | size
      · exact .refused (.output hk hb hi hs)
      · exact binds_of_asks (.buffer hk hb hi hs) (fun _ => .null _) hn
    · exact binds_of_asks (.texture hk hb) (fun _ => .null _) hn
  · exact .kept hb rfl (.null _)

theorem uploadHost_binds (data : HostData) :
    Binds t groups (.host data) r (uploadHost t data r) := by
  unfold uploadHost
  rw [get_bind]
  rcases hc : Option.filter (fun b => decide (data.toBytes.length ≤ b.size))
    ((r.kernel.bound? t.index).bind (·.resource.buffer?)) with _ | b
  · have hk : keepsSlot (r.kernel.bound? t.index) (.host data) = false := by
      rw [keepsSlot, ← Option.isSome_filter, hc]
      rfl
    simp only [hc]
    exact binds_of_asks (.host hk) (fun b => .host data b) fun _ _ => bind_of_ok (replace_eq _ _ _)
  · obtain ⟨hb, hl⟩ := Option.filter_eq_some_iff.1 hc
    obtain ⟨⟨x, o⟩, hx, hxb⟩ := Option.bind_eq_some_iff.1 hb
    cases x with
    | texture x => simp [Resource.buffer?] at hxb
    | buffer x =>
      simp only [Resource.buffer?, Option.some.injEq] at hxb
      subst hxb
      simp only [hc]
      exact .kept hx hl (.host data x)

theorem uploadImage_binds {type : ParamType} {format : ImageFormat} {access : Access}
    (hs : t.slot.kind = .texture type format access) (image : Image) :
    Binds t groups (.image image) r (uploadImage t format image r) := by
  unfold uploadImage
  rcases ht : image.texels format with f | texels
  · exact .refused (.texels hs ht)
  rw [bind_of_ok (orFail_of_ok rfl r), get_bind]
  rcases hc : Option.filter (·.fits image.width image.height)
    ((r.kernel.bound? t.index).bind (·.resource.texture?)) with _ | x
  · have hk : keepsSlot (r.kernel.bound? t.index) (.image image) = false := by
      rw [keepsSlot, ← Option.isSome_filter, hc]
      rfl
    simp only [hc]
    exact binds_of_asks (.image hs ht hk) (fun x => .image hs ht x) fun _ _ =>
      bind_of_ok (replace_eq _ _ _)
  · obtain ⟨hb, hf⟩ := Option.filter_eq_some_iff.1 hc
    obtain ⟨⟨y, o⟩, hy, hxy⟩ := Option.bind_eq_some_iff.1 hb
    cases y with
    | buffer y => simp [Resource.texture?] at hxy
    | texture y =>
      simp only [Resource.texture?, Option.some.injEq] at hxy
      subst hxy
      simp only [hc]
      exact .kept hy hf (.image hs ht y)

/-- All that the binding of an argument can do. -/
theorem bind_binds (t : Turn) (groups : Extent) (arg : Argument Resource) (r : Running) :
    Binds t groups arg r (bind t groups arg r) := by
  cases arg with
  | null => exact keep_binds
  | resource x =>
    show Binds t groups (.resource x) r (replace t ⟨x, .borrowed⟩ r)
    rw [replace_eq]
    exact .adopted rfl
  | host data => exact uploadHost_binds data
  | image image =>
    unfold bind
    rcases hs : t.slot.kind with type | ⟨type, format, access⟩
    · exact .refused (.image hs)
    · exact uploadImage_binds hs image
  | group count => exact .refused (.trailer rfl)
  | uniforms values => exact .refused (.trailer rfl)

/-- How the binding of an argument succeeds. -/
theorem bind_ok_cases {r' : Running} (h : bind t groups arg r = .ok () r') :
    (∃ b send d, r.kernel.bound? t.index = some b ∧ keepsSlot (some b) arg = true ∧
        Sends t.slot arg b.resource send ∧ send r.device = .ok () d ∧
        r' = { r with device := d }) ∨
      (∃ x, arg = .resource x ∧ r' = replaced t ⟨x, .borrowed⟩ r) ∨
      ∃ ask x d send d', Asks r.kernel groups t.slot (r.kernel.bound? t.index) arg ask ∧
        ask r.device = .ok x d ∧ Sends t.slot arg x send ∧
        send (replaced t ⟨x, .owned⟩ { r with device := d }).device = .ok () d' ∧
        r' = { replaced t ⟨x, .owned⟩ { r with device := d } with device := d' } := by
  have hb := bind_binds t groups arg r
  rw [h] at hb
  generalize hz : (EStateM.Result.ok () r' : EStateM.Result Failure Running Unit) = z at hb
  cases hb with
  | refused _ => cases hz
  | kept hb hk hs =>
    obtain ⟨d, hd, hr⟩ := onDevice_eq_ok hz.symm
    exact .inl ⟨_, _, d, hb, hk, hs, hd, hr⟩
  | adopted hx =>
    cases hz
    exact .inr (.inl ⟨_, hx, rfl⟩)
  | unmade _ _ => cases hz
  | made ha hx hs =>
    obtain ⟨d', hd, hr⟩ := onDevice_eq_ok hz.symm
    exact .inr (.inr ⟨_, _, _, _, d', ha, hx, hs, hd, hr⟩)

/-- What is sent to a resource without a failure has room there. -/
theorem Sends.keeps {x : Resource} {o : Ownership} {send : Work Unit} {d d' : Device}
    (h : Sends t.slot arg x send) (hr : send d = .ok () d') :
    keepsSlot (some ⟨x, o⟩) arg = true := by
  cases h with
  | null _ => rfl
  | host data b =>
    rcases uploadBuffer_cases b data.toBytes d with ⟨-, h⟩ | ⟨he, -⟩ | ⟨-, hl, -⟩
    · cases h.symm.trans hr
    · simp [keepsSlot, Resource.buffer?, he]
    · simpa [keepsSlot, Resource.buffer?] using hl
  | @image image _ _ _ texels _ _ x =>
    rcases uploadTexture_cases x texels image.width image.height d with
      ⟨-, h⟩ | ⟨hf, -⟩ | ⟨hf, -⟩
    · cases h.symm.trans hr
    · exact hf
    · exact hf

end Binding

section Turns

/-- What the binding of an argument does, one thing at a time. -/
inductive TurnStep (t : Turn) (arg : Argument Resource) : Running → Running → Prop
  /-- A resource is made, which the device counts as a failure, so that nothing refers to it. -/
  | lost {r : Running} {x : Resource} {d : Device} (h : Creates r.device x d) :
    TurnStep t arg r { r with device := d }
  /-- A resource is made and bound to the slot, for an argument that hands none over. -/
  | fill {r : Running} {x : Resource} {d : Device} (ha : arg.resource? = none)
    (h : Creates r.device x d) :
    TurnStep t arg r (replaced t ⟨x, .owned⟩ { r with device := d })
  /-- What is bound to the slot is written to. -/
  | write {r : Running} {b : Bound} {d : Device} (hb : r.kernel.bound? t.index = some b)
    (h : Writes r.device b.resource.id d) : TurnStep t arg r { r with device := d }
  /-- The argument is bound to the slot. -/
  | adopt {r : Running} {x : Resource} (h : arg = .resource x) :
    TurnStep t arg r (replaced t ⟨x, .borrowed⟩ r)

variable {t : Turn} {groups : Extent} {arg : Argument Resource} {r : Running}

theorem bound?_replaced {new : Bound} (h : t.index < r.kernel.slots.length) :
    (replaced t new r).kernel.bound? t.index = some new := by
  rw [replaced_kernel]
  simp [bound?, rebound, h]

theorem Asks.allocates {k : Kernel} {slot : ParamSlot} {b : Option Bound} {ask : Work Resource}
    (h : Asks k groups slot b arg ask) : Allocates ask id ∧ arg.resource? = none := by
  cases h with
  | buffer _ _ _ _ => exact ⟨(allocateBuffer_allocates _).map, rfl⟩
  | texture _ _ => exact ⟨(allocateTexture_allocates _ _ _).map, rfl⟩
  | host _ => exact ⟨(allocateBuffer_allocates _).map, rfl⟩
  | image _ _ _ => exact ⟨(allocateTexture_allocates _ _ _).map, rfl⟩

theorem Asks.creates {k : Kernel} {slot : ParamSlot} {b : Option Bound} {ask : Work Resource}
    {x : Resource} {d d' : Device} (ha : Asks k groups slot b arg ask) (h : ask d = .ok x d') :
    Creates d x d' := by
  rcases ha.allocates.1 d with ⟨f, h'⟩ | ⟨f, y, d₁, h', -⟩ | ⟨y, d₁, h', hc⟩ <;>
    cases h.symm.trans h'
  exact hc

theorem Sends.steps {b : Bound} {send : Work Unit} (h : Sends t.slot arg b.resource send)
    (hb : r.kernel.bound? t.index = some b) :
    ReflTransGen (TurnStep t arg) r (endState (onDevice send r)) := by
  rw [endState_onDevice]
  have hw : endState (send r.device) = r.device ∨
      Writes r.device b.resource.id (endState (send r.device)) := by
    rcases b with ⟨x, o⟩
    cases h with
    | null _ => exact .inl rfl
    | host data b => exact uploadBuffer_end _ _ _
    | image _ _ x => exact uploadTexture_end _ _ _ _ _
  rcases hw with hd | hd
  · rw [hd]
  · exact .single (.write hb hd)

/-- The binding of an argument is a sequence of steps, whether it fails or not. -/
theorem bind_steps (t : Turn) (groups : Extent) (arg : Argument Resource)
    (hi : t.index < r.kernel.slots.length) :
    ReflTransGen (TurnStep t arg) r (endState (bind t groups arg r)) := by
  have hb := bind_binds t groups arg r
  generalize bind t groups arg r = x at hb ⊢
  cases hb with
  | refused h => exact .refl
  | kept hb hk hs => exact hs.steps hb
  | adopted h => exact .single (.adopt h)
  | unmade ha h =>
    rcases ha.allocates.1 r.device with ⟨f, h'⟩ | ⟨f, x, d, h', hc⟩ | ⟨a, d, h', -⟩ <;>
      cases h.symm.trans h'
    · exact .refl
    · exact .single (.lost hc)
  | made ha h hs =>
    exact .head (.fill ha.allocates.2 (ha.creates h))
      (hs.steps (b := ⟨_, .owned⟩) (bound?_replaced hi))

end Turns

end Kernel

end ComputeKernel
