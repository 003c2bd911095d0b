import ComputeKernel.Kernel.Basic

/-!
# Binding arguments to slots

A run gives every slot an argument. An empty slot gets a new resource for the argument it is
given, and a resource is kept for as long as it has room for what is uploaded. A resource that
leaves a slot is destroyed if the kernel made it and nobody else refers to it: no other slot of any
kernel, no caller, and no argument of the run that is still to come.
-/

namespace ComputeKernel

open Device Shader

/-- The state of a run: the kernel, its device, and what was logged. -/
structure Running where
  kernel : Kernel
  device : Device
  log : List LogLine := []
  deriving Repr

/-- A part of a run, which may fail. -/
abbrev RunM := EStateM Failure Running

namespace RunM

/-- Works on the device. -/
def onDevice {α : Type} (work : Work α) : RunM α := fun s =>
  match work s.device with
  | .ok a d => .ok a { s with device := d }
  | .error f d => .error f { s with device := d }

/-- Goes on with a result, or fails because of how the kernel is used. -/
def used {α : Type} : Except UsageFault α → RunM α
  | .ok a => pure a
  | .error f => throw (.usage f)

/-- Changes the kernel. -/
def updateKernel (f : Kernel → Kernel) : RunM Unit :=
  modify fun s => { s with kernel := f s.kernel }

end RunM

open RunM

namespace Kernel

/-- A slot with its argument, and who else refers to resources: others, who do so for the whole of
a run, and the arguments that are still to come. -/
structure Turn where
  index : Nat
  slot : ParamSlot
  others : List ResourceId
  pending : List ResourceId
  deriving Repr

/-- Whether someone refers to a resource. -/
def isHeld (t : Turn) (k : Kernel) (id : ResourceId) : Bool :=
  k.resources.contains id || t.others.contains id || t.pending.contains id

/-- Gives up what was bound to a slot. -/
def release (t : Turn) (old : Bound) : RunM Unit := modify fun s =>
  if old.ownership = .owned ∧ isHeld t s.kernel old.resource.id = false then
    { s with device := s.device.destroy old.resource.id }
  else s

/-- Binds a resource to a slot and gives up what was bound there. -/
def replace (t : Turn) (new : Bound) : RunM Unit := do
  let old := (← get).kernel.bound? t.index
  updateKernel fun k => { k with slots := k.slots.set t.index (some new) }
  match old with
  | some old => release t old
  | none => pure ()

/-- The bytes of one element for every invocation, if 64 bits can hold each product on the way. -/
def outputSize? (invocations : Nat) (groups : Extent) (elementBytes : Nat) : Option Nat :=
  [groups.x.toNat, groups.y.toNat, groups.z.toNat, elementBytes].foldlM product? invocations

/-- Makes a resource for a slot that is given none: a buffer with an element for every invocation,
or a texture as large as the render target. -/
def makeOutput (t : Turn) (groups : Extent) : RunM Unit := do
  let k := (← get).kernel
  match t.slot.kind with
  | .buffer type =>
    let invocations ← orFail k.program.layout.invocations
    match outputSize? invocations groups type.elementBytes with
    | none => throw (.usage (.outputTooLarge groups t.slot.name))
    | some size =>
      let b ← onDevice (allocateBuffer size)
      replace t ⟨.buffer b, .owned⟩
  | .texture _ format _ =>
    let x ← onDevice (allocateTexture k.target.width k.target.height format)
    replace t ⟨.texture x, .owned⟩

/-- Keeps what is bound to a slot, or makes a resource for it. -/
def keep (t : Turn) (groups : Extent) : RunM Unit := do
  if ((← get).kernel.bound? t.index).isNone then makeOutput t groups

/-- Uploads data into the buffer of a slot, or into a new one if it has no room. -/
def uploadHost (t : Turn) (data : HostData) : RunM Unit := do
  let bytes := data.toBytes
  let current := ((← get).kernel.bound? t.index).bind (·.resource.buffer?)
  match current.filter fun b => decide (bytes.length ≤ b.size) with
  | some b => onDevice (uploadBuffer b bytes)
  | none =>
    let b ← onDevice (allocateBuffer bytes.length)
    replace t ⟨.buffer b, .owned⟩
    onDevice (uploadBuffer b bytes)

/-- Uploads an image into the texture of a slot, or into a new one if it has no room. The new one
is no smaller than the old one. -/
def uploadImage (t : Turn) (format : ImageFormat) (image : Image) : RunM Unit := do
  let texels ← orFail (image.texels format)
  let current := ((← get).kernel.bound? t.index).bind (·.resource.texture?)
  match current.filter (·.fits image.width image.height) with
  | some x => onDevice (uploadTexture x texels image.width image.height)
  | none =>
    let (width, height) := match current with
      | some old => (max old.width image.width, max old.height image.height)
      | none => (image.width, image.height)
    let x ← onDevice (allocateTexture width height format)
    replace t ⟨.texture x, .owned⟩
    onDevice (uploadTexture x texels image.width image.height)

/-- Binds an argument to a slot. -/
def bind (t : Turn) (groups : Extent) (arg : Argument Resource) : RunM Unit :=
  match arg, t.slot.kind with
  | .null, _ => keep t groups
  | .resource r, _ => replace t ⟨r, .borrowed⟩
  | .host data, _ => uploadHost t data
  | .image image, .texture _ format _ => uploadImage t format image
  | arg, _ => throw (.usage (.unbindableArgument arg.dump t.slot.name))

/-- The resources that arguments refer to. -/
def argumentIds (args : List (Argument Resource)) : List ResourceId :=
  args.filterMap fun a => a.resource?.map (·.id)

/-- Binds arguments to slots, numbered from `index` on. -/
def bindAll (others : List ResourceId) (groups : Extent) :
    (index : Nat) → List ParamSlot → List (Argument Resource) → RunM Unit
  | index, slot :: slots, arg :: args => do
    bind ⟨index, slot, others, argumentIds args⟩ groups arg
    bindAll others groups (index + 1) slots args
  | _, _, _ => pure ()

end Kernel

end ComputeKernel
