import ComputeKernel.Argument
import ComputeKernel.Device.Adapter
import ComputeKernel.Device.Transfer
import ComputeKernel.Shader.Program

/-!
# Kernels

A kernel is a program on a device together with what is bound to its slots. It starts with empty
slots; its pipeline is made by the first run, and its bind groups are kept for as long as the
resources in the slots stay the same.
-/

namespace ComputeKernel

open Device Shader

/-- Whether a kernel made the resource in a slot or was given it. -/
inductive Ownership where
  | owned
  | borrowed
  deriving DecidableEq, Repr

def Ownership.name : Ownership → String
  | owned => "owned"
  | borrowed => "borrowed"

/-- The resource in a slot. -/
structure Bound where
  resource : Resource
  ownership : Ownership
  deriving DecidableEq, Repr

/-- The layouts of the bind groups with which a pipeline is used. -/
structure Pipeline where
  params : List Entry
  uniforms : List Entry
  deriving DecidableEq, Repr

/-- Whether there is a bind group for uniforms. -/
def Pipeline.hasUniforms (p : Pipeline) : Bool := !p.uniforms.isEmpty

/-- A bind group with the resources it was made for. -/
structure CachedGroup where
  identity : List (Option ResourceId)
  group : BindGroup
  deriving DecidableEq, Repr

/-- A program with the resources bound to its slots. -/
structure Kernel where
  program : Program
  groups : Option Extent
  target : RenderTarget
  pipeline : Option Pipeline := none
  slots : List (Option Bound)
  uniformBuffers : List (Option Buffer)
  paramGroup : Option CachedGroup := none
  uniformGroup : Option CachedGroup := none
  /-- How many bind groups were made. -/
  builds : Nat := 0
  deriving Repr

namespace Kernel

/-- A kernel with nothing bound yet. -/
def fresh (program : Program) (groups : Option Extent) (target : RenderTarget) : Kernel where
  program := program
  groups := groups
  target := target
  slots := program.layout.params.map fun _ => none
  uniformBuffers := program.layout.uniforms.map fun _ => none

section Creation

/-- Whether a parameter of a layout holds doubles. -/
def usesDoubles (l : Layout) : Bool := l.params.any (·.kind.type.scalar == .f64)

/-- Hands the text of a program to the device. -/
def loadModule (p : Program) : Work Unit := fun d =>
  match inScope (fun d => ((), d.createShaderModule "webcs_compute_shader" p.dialect)) d with
  | (_, none, d) => .ok () d
  | (_, some e, d) => .error (.shaderCompile (.moduleRejected e.message)) d

/-- Makes a kernel from a program. -/
def create (p : Program) (groups : Option Extent) (target : RenderTarget) : Work Kernel := do
  let d ← get
  if usesDoubles p.layout && !d.hasDoubles then
    throw (.shaderCompile (.noDoubles d.adapterName))
  loadModule p
  return fresh p groups target

end Creation

section Groups

/-- How many groups of some size cover an extent. A size of zero counts as one. -/
def groupsFor (extent size : UInt32) : UInt32 :=
  let size := max size.toNat 1
  UInt32.ofNat ((extent.toNat + size - 1) / size)

/-- The group counts that cover the render target. -/
def renderGroups (k : Kernel) : Extent :=
  let size := k.program.layout.workgroupSize
  ⟨groupsFor k.target.width size.x, groupsFor k.target.height size.y, 1⟩

/-- The group counts of a run that is given none. -/
def groupCounts (k : Kernel) : Extent := k.groups.getD k.renderGroups

end Groups

section Slots

/-- The position and the slot of a parameter. -/
def param? (k : Kernel) (name : String) : Except UsageFault (Nat × ParamSlot) :=
  match k.program.layout.params.zipIdx.find? (·.1.name == name) with
  | some (slot, i) => .ok (i, slot)
  | none => .error (.noParameter name)

/-- The position and the slot of a uniform. -/
def uniform? (k : Kernel) (name : String) : Except UsageFault (Nat × UniformSlot) :=
  match k.program.layout.uniforms.zipIdx.find? (·.1.name == name) with
  | some (slot, i) => .ok (i, slot)
  | none => .error (.noUniform name)

/-- What is bound to a slot. -/
def bound? (k : Kernel) (i : Nat) : Option Bound := (k.slots[i]?).join

/-- The buffer of a uniform. -/
def uniformBuffer? (k : Kernel) (i : Nat) : Option Buffer := (k.uniformBuffers[i]?).join

/-- The resources in the slots. -/
def resources (k : Kernel) : List ResourceId :=
  k.slots.filterMap fun b => b.map (·.resource.id)

/-- The kernel with nothing in its slots. -/
def emptied (k : Kernel) : Kernel := { k with slots := k.slots.map fun _ => none }

/-- What is bound to the slot of a name. -/
def boundAt (k : Kernel) (name : String) : Except UsageFault (Option Bound) :=
  (k.param? name).map fun p => k.bound? p.1

end Slots

/-- A dump of the kernel. -/
def dump (k : Kernel) : String :=
  let groups := match k.groups with
    | some g => "Some(" ++ g.text ++ ")"
    | none => "None"
  "KernelHandle \x7b layout: " ++ k.program.layout.dump ++ ", groups: " ++ groups ++
    ", pipeline_built: " ++ (if k.pipeline.isSome then "true" else "false") ++
    ", bind_group_builds: " ++ toString k.builds ++ " \x7d"

end Kernel

end ComputeKernel
