import ComputeKernel.Config.Json
import ComputeKernel.Device.Present
import ComputeKernel.Kernel.Read
import ComputeKernel.Kernel.Run

/-!
# Sessions

A session is a device with the kernels made on it and the handles that its caller holds. Kernels
and handles are numbered in the order in which they came about; a kernel or a handle that the caller
dropped keeps its number. A kernel that was dropped refers to no resource any more.
-/

namespace ComputeKernel

open Device Shader

structure Session where
  device : Device
  target : RenderTarget
  kernels : List Kernel := []
  /-- The kernels that the caller dropped. -/
  dropped : List Nat := []
  buffers : List (Option Buffer) := []
  textures : List (Option Texture) := []
  /-- The formats for which there is a drawing pipeline. -/
  blits : List TargetFormat := []
  deriving Repr

/-- A number of a resource that the caller holds. -/
inductive Handle where
  | buffer (number : Nat)
  | texture (number : Nat)
  deriving DecidableEq, Repr

/-- What a session can be asked to do. Kernels are given by their numbers. -/
inductive Command where
  | createKernel (source : KernelSource) (config : Option String)
  /-- Runs a kernel. The caller may give handles away with the arguments. -/
  | run (kernel : Nat) (args : List (Argument Handle)) (given : List Handle := [])
  | groups (kernel : Nat)
  | setGroups (kernel : Nat) (groups : Extent)
  | setUniform (kernel : Nat) (name : String) (values : List Binary64)
  | read (kernel : Nat) (name : String) (hint : Option String)
  | readInto (kernel : Nat) (name : String) (old : HostData)
  | inspect (kernel : Nat) (name : String)
  /-- Makes the caller hold what is bound to a parameter. -/
  | take (kernel : Nat) (name : String)
  | createBuffer (size : Nat)
  | createBufferInit (data : HostData)
  | createTexture (width height : UInt32) (format : ImageFormat)
  | createRenderTexture
  | drop (handle : Handle)
  | dropKernel (kernel : Nat)
  /-- Makes a call fail, after some such calls that do not. -/
  | queueError (error : QueuedError) (delay : Nat := 0)
  /-- Shows a texture on a surface, unless the surface gives no frame. -/
  | present (texture : Nat) (target : Target) (error : Option SurfaceError)
  | presentTo (texture : Nat) (target : Target)
  | info
  | dump (kernel : Nat)

/-- What a session answers. -/
inductive Reply where
  | done
  /-- There is no such kernel or handle. -/
  | noHandle
  | failed (failure : Failure)
  | created (layout : Layout) (groups : Extent) (sourceBytes : Nat)
  | ran (slots : List (Option Bound)) (builds : Nat) (failure : Option Failure)
  | groups (groups : Extent)
  | data (data : HostData)
  | bound (bound : Option Bound)
  | resource (resource : Option Resource)
  | info (adapter : String) (doubles : Bool) (target : RenderTarget) (textureExtent : UInt32)
  | dump (text : String)
  deriving DecidableEq, Repr

/-- Whether the program stopped instead of an answer. -/
def Reply.isAbort : Reply → Bool
  | failed f => f.kind == .abort
  | ran _ _ (some f) => f.kind == .abort
  | _ => false

namespace Session

section Handles

variable (s : Session)

/-- A kernel, unless it was dropped. -/
def kernel? (i : Nat) : Option Kernel := if i ∈ s.dropped then none else s.kernels[i]?

def buffer? (i : Nat) : Option Buffer := (s.buffers[i]?).join

def texture? (i : Nat) : Option Texture := (s.textures[i]?).join

/-- The resource of a handle, unless it was dropped. -/
def resource? : Handle → Option Resource
  | .buffer i => (s.buffer? i).map .buffer
  | .texture i => (s.texture? i).map .texture

/-- Makes the caller hold a resource. -/
def hold : Resource → Session
  | .buffer b => { s with buffers := s.buffers ++ [some b] }
  | .texture t => { s with textures := s.textures ++ [some t] }

/-- Makes the caller drop a handle. -/
def release : Handle → Session
  | .buffer i => { s with buffers := s.buffers.set i none }
  | .texture i => { s with textures := s.textures.set i none }

/-- Makes the caller drop some handles. -/
def releaseAll (handles : List Handle) : Session := handles.foldl release s

/-- Makes the caller drop a kernel. -/
def dropKernel (i : Nat) : Session :=
  { s with kernels := s.kernels.modify i Kernel.emptied, dropped := i :: s.dropped }

/-- The resources that the caller holds. -/
def held : List ResourceId :=
  s.buffers.filterMap (fun b => b.map fun b => .buffer b.number) ++
    s.textures.filterMap fun t => t.map fun t => .texture t.number

/-- The resources that the caller holds or that are in a slot of a kernel other than `k`. -/
def heldOutside (k : Nat) : List ResourceId :=
  (s.kernels.eraseIdx k).flatMap Kernel.resources ++ s.held

end Handles

/-- Opens a session on an adapter, if there is one. -/
def start (adapter : Option Adapter) (options : Options) : EStateM Failure Opening Session := do
  let device ← Device.request adapter options
  return { device := device, target := options.target }

end Session

end ComputeKernel
