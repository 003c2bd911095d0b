import ComputeKernel.Session.Basic

/-!
# Commands

What each command does to a session. A command that names a kernel or a handle that is not there
does nothing; in a run the arguments are looked up before the kernel. A command that fails changes
nothing but what it did up to then, and so does one at which the program stops.
-/

namespace ComputeKernel.Session

open Device Shader

/-- The answer to a command, what the device was asked to do, and the warnings. -/
structure Outcome where
  reply : Reply
  events : List Event
  warnings : List String
  deriving DecidableEq, Repr

/-- The reply and the log of a command, with the session after it. -/
structure Step where
  session : Session
  reply : Reply
  log : List LogLine := []

namespace Step

/-- A command that only asks. -/
def answer (s : Session) (reply : Reply) : Step := ⟨s, reply, []⟩

/-- A reply that depends on whether there was a result. -/
def ofExcept {α : Type} (s : Session) (reply : α → Reply) : Except Failure α → Step
  | .ok a => answer s (reply a)
  | .error f => answer s (.failed f)

end Step

section Work

/-- Works on the device of a session. -/
def work {α : Type} (s : Session) (w : Work α) : Except Failure α × Session :=
  match w s.device with
  | .ok a d => (.ok a, { s with device := d })
  | .error f d => (.error f, { s with device := d })

/-- Works on the device, and answers with the result. -/
def worked {α : Type} (s : Session) (w : Work α) (reply : α → Reply) : Step :=
  match s.work w with
  | (result, s) => Step.ofExcept s reply result

/-- Makes a resource that the caller then holds. -/
def create (s : Session) (w : Work Resource) : Step :=
  match s.work w with
  | (.ok r, s) => .answer (s.hold r) (.resource (some r))
  | (.error f, s) => .answer s (.failed f)

/-- Runs a part of a run of a kernel. -/
def running (s : Session) (i : Nat) (k : Kernel) (run : RunM Unit) :
    Except Failure Unit × Kernel × List LogLine × Session :=
  let (result, r) := match run ⟨k, s.device, []⟩ with
    | .ok _ r => (Except.ok (), r)
    | .error f r => (.error f, r)
  (result, r.kernel, r.log, { s with device := r.device, kernels := s.kernels.set i r.kernel })

end Work

section Kernels

variable (s : Session)

/-- Does something with a kernel, if it is there. -/
def withKernel (i : Nat) (f : Kernel → Step) : Step :=
  match s.kernel? i with
  | some k => f k
  | none => .answer s .noHandle

/-- Makes a kernel. -/
def createKernel (frontEnd : FrontEnd) (source : KernelSource) (config : Option String) : Step :=
  match (config.map Config.parse).getD (.ok default) with
  | .error f => .answer s (.failed (.configuration f))
  | .ok config =>
    match (source.compile frontEnd config).outcome with
    | (.error f, log) => ⟨s, .failed f, log⟩
    | (.ok program, log) =>
      match s.work (Kernel.create program config.groups s.target) with
      | (.error f, s) => ⟨s, .failed f, log⟩
      | (.ok k, s) =>
        ⟨{ s with kernels := s.kernels ++ [k] },
          .created program.layout k.groupCounts program.source.utf8ByteSize, log⟩

/-- Runs a kernel. The handles that the caller gives away are gone before the run starts. -/
def run (i : Nat) (args : List (Argument Handle)) (given : List Handle) : Step :=
  match args.mapM (Argument.resolve? s.resource?) with
  | none => .answer s .noHandle
  | some args =>
    s.withKernel i fun k =>
      let s := s.releaseAll given
      let (result, k, log, s) := s.running i k (Kernel.run (s.heldOutside i) args)
      let failure := match result with
        | .ok _ => none
        | .error f => some f
      ⟨s, .ran k.slots k.builds failure, log⟩

/-- Gives values to a uniform of a kernel. -/
def setUniform (i : Nat) (name : String) (values : List Binary64) : Step :=
  s.withKernel i fun k =>
    let (result, _, log, s) := s.running i k (Kernel.setUniform name values)
    { Step.ofExcept s (fun _ => .done) result with log := log }

/-- Asks a kernel for what is bound to a parameter. -/
def inspect (i : Nat) (name : String) : Step :=
  s.withKernel i fun k => .ofExcept s .bound ((k.boundAt name).mapError .usage)

/-- Makes the caller hold what is bound to a parameter. -/
def take (i : Nat) (name : String) : Step :=
  s.withKernel i fun k =>
    match k.boundAt name with
    | .error f => .answer s (.failed (.usage f))
    | .ok none => .answer s (.resource none)
    | .ok (some b) => .answer (s.hold b.resource) (.resource (some b.resource))

end Kernels

section Presentation

variable (s : Session)

/-- Draws a texture to a target. -/
def draw (t : Texture) (target : Target) : Except Failure Unit × Session :=
  match s.work (do checkDisplayable t; ensureBlit s.blits target.format) with
  | (.error f, s) => (.error f, s)
  | (.ok blits, s) => { s with blits := blits }.work (blit t target)

/-- Shows a texture on a surface. -/
def present (t : Texture) (target : Target) : Option SurfaceError → Step
  | some e => .answer s (.failed (.backend (.noFrame e.message)))
  | none =>
    match s.draw t target with
    | (.ok _, s) => .answer { s with device := s.device.record .present } .done
    | (.error f, s) => .answer s (.failed f)

/-- Does something with a texture that the caller holds. -/
def withTexture (i : Nat) (f : Texture → Step) : Step :=
  match s.texture? i with
  | some t => f t
  | none => .answer s .noHandle

end Presentation

/-- What a command does. -/
def step (frontEnd : FrontEnd) (s : Session) : Command → Step
  | .createKernel source config => s.createKernel frontEnd source config
  | .run i args given => s.run i args given
  | .groups i => s.withKernel i fun k => .answer s (.groups k.groupCounts)
  | .setGroups i groups =>
    s.withKernel i fun k =>
      .answer { s with kernels := s.kernels.set i { k with groups := some groups } }
        (.groups groups)
  | .setUniform i name values => s.setUniform i name values
  | .read i name hint => s.withKernel i fun k => s.worked (k.read name hint) .data
  | .readInto i name old => s.withKernel i fun k => s.worked (k.readInto name old) .data
  | .inspect i name => s.inspect i name
  | .take i name => s.take i name
  | .createBuffer size => s.create (.buffer <$> allocateBuffer size)
  | .createBufferInit data => s.create (.buffer <$> bufferOfBytes data.toBytes)
  | .createTexture width height format =>
    s.create (.texture <$> allocateTexture width height format)
  | .createRenderTexture =>
    s.create (.texture <$> allocateTexture s.target.width s.target.height .rgba8unorm)
  | .drop handle =>
    match s.resource? handle with
    | some _ => .answer (s.release handle) .done
    | none => .answer s .noHandle
  | .dropKernel i => s.withKernel i fun _ => .answer (s.dropKernel i) .done
  | .queueError error delay => .answer { s with device := s.device.queue error delay } .done
  | .present i target error => s.withTexture i fun t => s.present t target error
  | .presentTo i target =>
    s.withTexture i fun t =>
      match s.draw t target with
      | (result, s) => .ofExcept s (fun _ => .done) result
  | .info =>
    let device := s.device.record (.requestAdapter .none)
    .answer { s with device := device }
      (.info device.adapterName device.hasDoubles s.target device.limits.textureExtent)
  | .dump i => s.withKernel i fun k => .answer s (.dump k.dump)

/-- Performs a command. -/
def perform (frontEnd : FrontEnd) (s : Session) (c : Command) : Outcome × Session :=
  let step := { s with device := { s.device with events := [] } }.step frontEnd c
  (⟨step.reply, step.session.device.events, warnings step.log⟩, step.session)

end ComputeKernel.Session
