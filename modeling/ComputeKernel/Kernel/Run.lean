import ComputeKernel.Kernel.Uniform

/-!
# Runs

A run checks its arguments before it does anything. Then it makes the pipeline if there is none,
binds the arguments, sets the uniforms, makes those bind groups whose resources have changed, and
dispatches.
-/

namespace ComputeKernel.Kernel

open Device RunM Shader

section Checks

/-- A failure in the wording of a parameter, if it has one. -/
def failureOf (name : String) : Failure → Failure
  | .usage fault => .usage (.ofParameter name fault)
  | f => f

/-- What is wrong with an argument for a slot. -/
def argumentFault? (slot : ParamSlot) (arg : Argument Resource) : Option Failure :=
  let type := slot.kind.type
  match arg.shape?.filter (· != type.shape) with
  | some shape => some (.usage (.wrongRank slot.name type shape.rank))
  | none =>
    match arg, slot.kind with
    | .resource (.texture x), .texture _ format _ =>
      if x.format = format then none else some (.usage (.wrongFormat slot.name format x.format))
    | .image image, .texture _ format _ =>
      match image.texels format with
      | .ok _ => none
      | .error f => some (failureOf slot.name f)
    | _, _ => none

/-- What is wrong with the arguments for some slots, in their order. -/
def argumentsFault? : List ParamSlot → List (Argument Resource) → Option Failure
  | slot :: slots, arg :: args => (argumentFault? slot arg).or (argumentsFault? slots args)
  | _, _ => none

/-- The arguments of a run with its group counts, if nothing is wrong with them. -/
def checkRun (k : Kernel) (args : List (Argument Resource)) :
    Except Failure (RunArgs × Extent) := do
  let run ← (RunArgs.split k.program.layout.params.length args).mapError .usage
  if let some f := argumentsFault? k.program.layout.params run.params then throw f
  if let some f := run.uniforms.bind k.uniformsFault? then throw (.usage f)
  let groups := run.groups.getD k.groupCounts
  if groups.hasZero then throw (.usage (.zeroGroups groups))
  return (run, groups)

end Checks

section Pipelines

/-- The layouts of the bind groups of a program. -/
def groupLayouts (p : Program) : Except ConfigurationFault Pipeline := do
  if p.isLiteral then
    let params ← p.module.entries ComputeKernel.paramGroup
    let uniforms ← p.module.entries ComputeKernel.uniformGroup
    return ⟨params, uniforms⟩
  else return ⟨paramEntries p.dialect p.layout, uniformEntries p.layout⟩

/-- The calls that make a pipeline. -/
def createPipeline (p : Pipeline) (d : Device) : Device :=
  let d := d.createBindGroupLayout "webcs_params" p.params
  let d := if p.hasUniforms then d.createBindGroupLayout "webcs_uniforms" p.uniforms else d
  let d := d.createPipelineLayout "webcs_pipeline_layout" (if p.hasUniforms then 2 else 1)
  d.createComputePipeline "webcs_compute_pipeline" Dialect.entryPoint

/-- Makes the pipeline of a program. -/
def buildPipeline (p : Program) : Work Pipeline := fun d =>
  match groupLayouts p with
  | .error f => .error (.configuration f) d
  | .ok layouts =>
    match inScope (fun d => ((), createPipeline layouts d)) d with
    | (_, none, d) => .ok layouts d
    | (_, some e, d) => .error (.shaderLink e.message) d

/-- The pipeline of the kernel, made if there is none. -/
def ensurePipeline : RunM Pipeline := do
  let k := (← get).kernel
  match k.pipeline with
  | some p => return p
  | none =>
    let p ← onDevice (buildPipeline k.program)
    updateKernel fun k => { k with pipeline := some p }
    return p

end Pipelines

section BindGroups

/-- Makes a bind group. -/
def buildGroup (label : String) (group : BindGroup) : RunM Unit :=
  onDevice (Work.checked .createBindGroup fun d => ((), d.createBindGroup label group))

/-- The identity of what is in the slots. -/
def slotIdentity (k : Kernel) : List (Option ResourceId) :=
  k.slots.map fun b => b.map (·.resource.id)

/-- The identity of the uniform buffers. -/
def uniformIdentity (k : Kernel) : List (Option ResourceId) :=
  k.uniformBuffers.map fun b => b.map fun b => .buffer b.number

/-- The resources in the slots, all of which have to be occupied. -/
def slotGroup : List ParamSlot → List (Option Bound) → Except BackendFault BindGroup
  | slot :: slots, b :: bs =>
    match b with
    | some b => (slotGroup slots bs).map (b.resource.id :: ·)
    | none => .error (.emptySlot slot.name)
  | _, _ => .ok []

/-- Whether a bind group has to be made anew for some resources. -/
def isStale (cached : Option CachedGroup) (identity : List (Option ResourceId)) : Bool :=
  match cached with
  | some c => c.identity != identity
  | none => true

/-- The bind group of the parameters, made anew if what is in the slots has changed. -/
def refreshParamGroup : RunM Unit := do
  let k := (← get).kernel
  let identity := k.slotIdentity
  if isStale k.paramGroup identity then
    match slotGroup k.program.layout.params k.slots with
    | .error f => throw (.backend f)
    | .ok group =>
      buildGroup "webcs_params" group
      updateKernel fun k =>
        { k with paramGroup := some ⟨identity, group⟩, builds := k.builds + 1 }

/-- The bind group of the uniforms, made anew if their buffers have changed. -/
def refreshUniformGroup : RunM Unit := do
  let k := (← get).kernel
  let identity := k.uniformIdentity
  if isStale k.uniformGroup identity then
    let group := identity.filterMap id
    buildGroup "webcs_uniforms" group
    updateKernel fun k =>
      { k with uniformGroup := some ⟨identity, group⟩, builds := k.builds + 1 }

end BindGroups

/-- Dispatches with the bind groups of the kernel. -/
def dispatch (p : Pipeline) (groups : Extent) : RunM Unit := do
  let k := (← get).kernel
  match k.paramGroup with
  | none => throw (.backend .noParamGroup)
  | some params =>
    let uniforms := if p.hasUniforms then k.uniformGroup.map (·.group) else none
    onDevice (Work.checked .dispatch fun d =>
      ((), d.submitDispatch groups params.group uniforms))

/-- Binds the arguments of a run to the slots and gives values to the uniforms. -/
def bindRun (others : List ResourceId) (groups : Extent) (run : RunArgs) : RunM Unit := do
  let layout := (← get).kernel.program.layout
  bindAll others groups 0 layout.params run.params
  setUniforms (run.uniforms.map (·.entries) |>.getD [])
  fillUniforms 0 layout.uniforms

/-- What a run does before it looks at its bind groups. It gives the pipeline and the group counts
of the run. -/
def prepare (others : List ResourceId) (args : List (Argument Resource)) :
    RunM (Pipeline × Extent) := do
  let (run, groups) ← orFail ((← get).kernel.checkRun args)
  let p ← ensurePipeline
  bindRun others groups run
  return (p, groups)

/-- Makes the bind groups that are stale, and dispatches. -/
def launch (p : Pipeline) (groups : Extent) : RunM Unit := do
  refreshParamGroup
  if p.hasUniforms then refreshUniformGroup
  dispatch p groups

/-- Runs the kernel. The resources that others refer to are never destroyed. -/
def run (others : List ResourceId) (args : List (Argument Resource)) : RunM Unit := do
  let (p, groups) ← prepare others args
  launch p groups

end ComputeKernel.Kernel
