import ComputeKernel.Device.Basic
import ComputeKernel.Log

/-!
# Adapters

A device is asked of an adapter. Work with doubles is asked for where it is wanted and the adapter
can do it; where it cannot, that is logged and the device does without.
-/

namespace ComputeKernel.Device

/-- What a program can learn about an adapter, and why it refuses to give a device, if it does. -/
structure Adapter where
  name : String
  backend : String
  deviceType : String
  driver : String
  driverInfo : String
  hasDoubles : Bool
  textureExtent : UInt32
  refusal : Option String := none
  /-- Whether its devices discard the writes that they turn down. -/
  discards : Bool := false
  deriving DecidableEq, Repr

/-- The extent of what kernels render to, which is the extent of textures made for them. -/
structure RenderTarget where
  width : UInt32
  height : UInt32
  deriving DecidableEq, Repr

/-- What is asked of a device. -/
structure Options where
  target : RenderTarget := ⟨512, 512⟩
  power : PowerPreference := .high
  wantsDoubles : Bool := true
  deriving DecidableEq, Repr

/-- The largest buffer that is asked for. -/
def standardBufferSize : Nat := 268435456

/-- What happens while a device is asked for. -/
structure Opening where
  events : List Event := []
  log : List LogLine := []
  deriving DecidableEq, Repr

namespace Opening

def record (e : Event) (o : Opening) : Opening := { o with events := o.events ++ [e] }

def note (l : LogLine) (o : Opening) : Opening := { o with log := o.log ++ [l] }

end Opening

section Lines

def noDoublesLine (a : Adapter) : LogLine :=
  ⟨.warn, .adapter, "adapter " ++ inQuotes a.name ++ " has no 64-bit float support"⟩

def adapterLine (a : Adapter) : LogLine :=
  ⟨.info, .adapter,
    "using adapter " ++ inQuotes a.name ++ " (" ++ a.backend ++ ", " ++ a.deviceType ++ ")"⟩

def readyLine (t : RenderTarget) : LogLine :=
  ⟨.info, .context, "compute context ready, render target " ++ crossed t.width t.height⟩

end Lines

/-- Asks for a device on an adapter, if there is one. -/
def request (adapter : Option Adapter) (options : Options) :
    EStateM Failure Opening Device := do
  let target := options.target
  if target.width == 0 || target.height == 0 then
    throw (.configuration (.emptyRenderTarget target.width target.height))
  modify (·.record (.requestAdapter options.power))
  match adapter with
  | none => throw (.unavailable .noAdapter)
  | some a =>
    let doubles := options.wantsDoubles && a.hasDoubles
    if options.wantsDoubles && !a.hasDoubles then modify (·.note (noDoublesLine a))
    modify (·.record (.requestDevice doubles))
    match a.refusal with
    | some reason => throw (.unavailable (.deviceRefused reason))
    | none =>
      modify (·.note (adapterLine a))
      modify (·.note (readyLine target))
      return {
        adapterName := a.name
        hasDoubles := doubles
        limits := ⟨standardBufferSize, a.textureExtent⟩
        discards := a.discards }

end ComputeKernel.Device
