import ComputeKernel.Device.Event
import ComputeKernel.Device.Memory

/-!
# The device

A device holds the memory of its resources and records what it is asked to do. It moves bytes and
runs no shader. Errors can be queued for a call: they are raised when the call is next made, or
after some calls that they let pass. The call does its work all the same, except for a write on a
device that discards what it turns down. What is raised inside an error scope is kept there, the
first error of each sort, and what is raised outside of one is lost.

`Work` is a computation on a device that may fail; what it did before it failed stays done.
-/

namespace ComputeKernel

namespace Device

/-- The calls of a device for which errors can be queued. -/
inductive Call where
  | createBuffer
  | createTexture
  | createShaderModule
  | createBindGroupLayout
  | createPipelineLayout
  | createComputePipeline
  | createRenderPipeline
  | createBindGroup
  | writeBuffer
  | writeTexture
  | submit
  /-- A mapping that completes with an error. -/
  | map
  /-- A mapping that never completes. -/
  | lostMap
  deriving DecidableEq, Repr

/-- An error for a call. -/
structure QueuedError where
  call : Call
  error : DeviceError
  deriving DecidableEq, Repr

/-- An error that waits for a call, after as many such calls as `delay` says. -/
structure WaitingError extends QueuedError where
  delay : Nat
  deriving DecidableEq, Repr

namespace WaitingError

/-- Whether the next call raises the error. -/
def isDue (call : Call) (e : WaitingError) : Bool := e.call == call && e.delay == 0

/-- The error after a call that it let pass. -/
def pass (call : Call) (e : WaitingError) : WaitingError :=
  if e.call = call then { e with delay := e.delay - 1 } else e

end WaitingError

/-- The errors raised since a scope was opened, the first of each sort. -/
structure ErrorScope where
  validation : Option String := none
  outOfMemory : Bool := false
  deriving DecidableEq, Repr

namespace ErrorScope

/-- The scope after an error is raised in it. -/
def raise (s : ErrorScope) : DeviceError → ErrorScope
  | .validation message => { s with validation := s.validation.or (some message) }
  | .outOfMemory => { s with outOfMemory := true }

/-- The error that a scope ends with. -/
def error? (s : ErrorScope) : Option DeviceError :=
  match s.validation with
  | some message => some (.validation message)
  | none => if s.outOfMemory then some .outOfMemory else none

end ErrorScope

/-- The largest buffer, in bytes, and the largest extent of a texture. -/
structure Limits where
  bufferSize : Nat
  textureExtent : UInt32
  deriving DecidableEq, Repr

end Device

/-- A device with the memory of its resources, its queued errors and its log. -/
structure Device where
  adapterName : String
  hasDoubles : Bool
  limits : Device.Limits
  /-- Whether a write at which an error is raised leaves the memory as it is. -/
  discards : Bool := false
  buffers : List Device.BufferMemory := []
  textures : List Device.TextureMemory := []
  queued : List Device.WaitingError := []
  scope : Option Device.ErrorScope := none
  events : List Device.Event := []
  deriving DecidableEq, Repr

namespace Device

section Calls

variable (d : Device)

/-- Adds an event to the log. -/
def record (e : Event) : Device := { d with events := d.events ++ [e] }

/-- Takes all the errors that are due at a call, and raises them. -/
def enter (call : Call) : Device :=
  let raised := (d.queued.filter (·.isDue call)).map (·.error)
  { d with
    queued := (d.queued.filter (!·.isDue call)).map (·.pass call)
    scope := d.scope.map fun s => raised.foldl ErrorScope.raise s }

/-- The bytes of a buffer. -/
def bufferContents (n : Nat) : List UInt8 :=
  match d.buffers[n]? with
  | some m => m.contents
  | none => []

/-- Changes the memory of a buffer. -/
def updateBuffer (n : Nat) (f : BufferMemory → BufferMemory) : Device :=
  { d with buffers := d.buffers.modify n f }

/-- What a call that writes makes of some memory, before the errors that are due at it are taken. -/
def written {α : Type} (call : Call) (write : α → α) (memory : α) : α :=
  if d.discards && d.queued.any (·.isDue call) then memory else write memory

/-- Makes a buffer and gives its number. -/
def createBuffer (size : Nat) (label : String) : Nat × Device :=
  let n := d.buffers.length
  let d := (d.enter .createBuffer).record (.createBuffer n size label)
  (n, { d with buffers := d.buffers ++ [⟨size, []⟩] })

/-- Makes a buffer that holds some bytes and gives its number. -/
def createBufferInit (bytes : List UInt8) (label : String) : Nat × Device :=
  let n := d.buffers.length
  let d := (d.enter .createBuffer).record (.createBufferInit n label bytes)
  (n, { d with buffers := d.buffers ++ [⟨bytes.length, bytes⟩] })

/-- Writes to the start of a buffer. -/
def writeBuffer (n : Nat) (bytes : List UInt8) : Device :=
  ((d.enter .writeBuffer).record (.writeBuffer n bytes)).updateBuffer n
    (d.written .writeBuffer (·.write bytes))

/-- Makes a texture and gives its number. -/
def createTexture (width height : UInt32) (format : ImageFormat) : Nat × Device :=
  let n := d.textures.length
  let d := (d.enter .createTexture).record (.createTexture n width height format)
  (n, { d with textures := d.textures ++ [⟨width, height, format, []⟩] })

/-- Writes to the top left corner of a texture. -/
def writeTexture (n : Nat) (width height : UInt32) (rowBytes : Nat) (bytes : List UInt8) : Device :=
  { (d.enter .writeTexture).record (.writeTexture n width height rowBytes bytes) with
    textures := d.textures.modify n (d.written .writeTexture (·.write rowBytes bytes)) }

def destroy (id : ResourceId) : Device := d.record (.destroy id)

def createShaderModule (label : String) (dialect : Dialect) : Device :=
  (d.enter .createShaderModule).record (.createShaderModule label dialect)

def createBindGroupLayout (label : String) (entries : List Shader.Entry) : Device :=
  (d.enter .createBindGroupLayout).record (.createBindGroupLayout label entries)

def createPipelineLayout (label : String) (groups : Nat) : Device :=
  (d.enter .createPipelineLayout).record (.createPipelineLayout label groups)

def createComputePipeline (label entryPoint : String) : Device :=
  (d.enter .createComputePipeline).record (.createComputePipeline label entryPoint)

def createRenderPipeline (label : String) (format : TargetFormat) : Device :=
  (d.enter .createRenderPipeline).record (.createRenderPipeline label format)

def createBindGroup (label : String) (group : BindGroup) : Device :=
  (d.enter .createBindGroup).record (.createBindGroup label group)

/-- Copies a buffer to another. -/
def submitBufferCopy (source target size : Nat) : Device :=
  let bytes := (d.bufferContents source).take size
  ((d.enter .submit).record (.copyBuffer source target size)).updateBuffer target (·.write bytes)

/-- Copies the rows of a texture to a buffer, `pitch` bytes apart. -/
def submitTextureCopy (source target : Nat) (width height : UInt32) (pitch : Nat) : Device :=
  let bytes := match d.textures[source]? with
    | some m => m.packed pitch
    | none => []
  ((d.enter .submit).record (.copyTexture source target width height pitch)).updateBuffer target
    (·.write bytes)

/-- Runs a kernel with some bind groups. -/
def submitDispatch (groups : Extent) (params : BindGroup) (uniforms : Option BindGroup) : Device :=
  (d.enter .submit).record (.dispatch groups params uniforms)

def submitDraw (target : View) (group : BindGroup) : Device :=
  (d.enter .submit).record (.draw target group)

/-- Queues an error for a call, to be raised after some such calls. -/
def queue (e : QueuedError) (delay : Nat) : Device :=
  { d with queued := d.queued ++ [⟨e, delay⟩] }

/-- Takes the first error that is due at a call, and says whether there is one. -/
def takeQueued (call : Call) : Bool × Device :=
  (d.queued.any (·.isDue call),
    { d with queued := (d.queued.eraseP (·.isDue call)).map (·.pass call) })

end Calls

/-- A computation on a device that may fail. -/
abbrev Work := EStateM Failure Device

/-- Makes calls inside a new error scope and gives the error that the scope ends with. -/
def inScope {α : Type} (calls : Device → α × Device) (d : Device) :
    α × Option DeviceError × Device :=
  let (a, d) := calls { d with scope := some { } }
  (a, d.scope.bind ErrorScope.error?, { d with scope := none })

namespace Work

/-- Makes calls, and fails if one of them raises an error. -/
def checked {α : Type} (task : DeviceTask) (calls : Device → α × Device) : Work α := fun d =>
  match inScope calls d with
  | (a, none, d) => .ok a d
  | (_, some e, d) => .error (.backend (.raised task e)) d

/-- Makes calls whose errors are lost. -/
def unchecked {α : Type} (calls : Device → α × Device) : Work α := fun d =>
  let (a, d) := calls d
  .ok a d

/-- Maps a buffer and reads it. -/
def mapped (n : Nat) : Work (List UInt8) := fun d =>
  let d := d.record (.map n)
  match d.takeQueued .lostMap with
  | (true, d) => .error (.backend .mappingLost) d
  | (false, d) =>
    match d.takeQueued .map with
    | (true, d) => .error (.backend .mappingFailed) d
    | (false, d) => .ok (d.bufferContents n) (d.record (.unmap n))

end Work

end Device

end ComputeKernel
