import ComputeKernel.Kernel.Basic

/-!
# Reading parameters back

What is bound to a parameter is read back as numbers: of a scalar that is asked for, or of the one
that the parameter itself holds.
-/

namespace ComputeKernel.Kernel

open Device

/-- The scalar in which a slot is read back when none is asked for. -/
def naturalScalar (kind : SlotKind) : HostScalar :=
  match kind with
  | .buffer type => type.scalar.host
  | .texture _ format _ => format.readback

/-- The scalar that is asked for, or else that of the slot. -/
def readScalar (slot : ParamSlot) : Option String → Except UsageFault HostScalar
  | none => .ok (naturalScalar slot.kind)
  | some hint =>
    match HostScalar.ofHint? hint with
    | some s => .ok s
    | none => .error (.unknownHint hint)

/-- Goes on with a result, or fails because of how the kernel is used. -/
def usedOnDevice {α : Type} : Except UsageFault α → Work α
  | .ok a => pure a
  | .error f => throw (.usage f)

/-- The resource in a slot, which has to be occupied. -/
def occupied (k : Kernel) (name : String) (i : Nat) : Except UsageFault Resource :=
  match k.bound? i with
  | some b => .ok b.resource
  | none => .error (.noResource name)

/-- Reads a parameter. -/
def read (k : Kernel) (name : String) (hint : Option String) : Work HostData := do
  let (i, slot) ← usedOnDevice (k.param? name)
  let scalar ← usedOnDevice (readScalar slot hint)
  let resource ← usedOnDevice (k.occupied name i)
  return HostData.ofBytes scalar (← readResource resource)

/-- Reads a parameter into data that is there already, as numbers of its scalar. -/
def readInto (k : Kernel) (name : String) (old : HostData) : Work HostData := do
  let (i, _) ← usedOnDevice (k.param? name)
  let resource ← usedOnDevice (k.occupied name i)
  return old.refill (← readResource resource)

end ComputeKernel.Kernel
