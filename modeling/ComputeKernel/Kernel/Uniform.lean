import ComputeKernel.Kernel.Binding

/-!
# Uniforms

A uniform holds four values of its scalar. It is given up to four numbers, and zeros for the rest;
a uniform that was never given any holds zeros.
-/

namespace ComputeKernel.Kernel

open Device RunM

/-- Four numbers as the bytes of a uniform. Numbers out of the range of an integer go to the
nearest bound. -/
def uniformData (kind : Scalar) (values : List Binary64) : HostData :=
  let values := values ++ List.replicate (4 - values.length) Binary64.zero
  match kind with
  | .u32 => .u32 (values.map Binary64.toUInt32)
  | .i32 => .i32 (values.map Binary64.toInt32)
  | .f32 => .f32 (values.map Binary64.toBinary32)
  | .f64 => .f64 values

/-- What is wrong with values for a uniform. -/
def uniformFault? (k : Kernel) (name : String) (values : List Binary64) : Option UsageFault :=
  match k.uniform? name with
  | .error f => some f
  | .ok _ => if 4 < values.length then some (.tooManyValues name values.length) else none

/-- What is wrong with a map of values, by the order of the names. -/
def uniformsFault? (k : Kernel) (values : UniformMap) : Option UsageFault :=
  values.entries.findSome? fun e => k.uniformFault? e.1 e.2

/-- The buffer of a uniform, made if there is none. -/
def ensureUniform (i : Nat) (slot : UniformSlot) : RunM Buffer := do
  match (← get).kernel.uniformBuffer? i with
  | some b => return b
  | none =>
    let b ← onDevice (allocateBuffer slot.byteSize)
    updateKernel fun k => { k with uniformBuffers := k.uniformBuffers.set i (some b) }
    return b

/-- Gives values to a uniform. -/
def setUniform (name : String) (values : List Binary64) : RunM Unit := do
  let (i, slot) ← used ((← get).kernel.uniform? name)
  if 4 < values.length then throw (.usage (.tooManyValues name values.length))
  let b ← ensureUniform i slot
  onDevice (uploadBuffer b (uniformData slot.kind values).toBytes)

/-- Gives values to uniforms. -/
def setUniforms : List (String × List Binary64) → RunM Unit
  | [] => pure ()
  | (name, values) :: r => do
    setUniform name values
    setUniforms r

def unsetLine (slot : UniformSlot) : LogLine :=
  ⟨.warn, .kernel, "uniform " ++ inQuotes slot.name ++ " was never set; binding zeros"⟩

/-- Makes the buffers of the uniforms that have none, numbered from `i` on. -/
def fillUniforms : (i : Nat) → List UniformSlot → RunM Unit
  | _, [] => pure ()
  | i, slot :: r => do
    if ((← get).kernel.uniformBuffer? i).isNone then
      modify fun s => { s with log := s.log ++ [unsetLine slot] }
      let _ ← ensureUniform i slot
    fillUniforms (i + 1) r

end ComputeKernel.Kernel
