import ComputeKernel.Device.Transfer
import ComputeKernel.HostData

/-!
# Presentation

A texture is shown by drawing it, stretched, over the whole of a target. The pipeline for that is
made once for each format of a target.
-/

namespace ComputeKernel.Device

/-- Why a surface gives no frame. -/
inductive SurfaceError where
  | timeout
  | outdated
  | lost
  | outOfMemory
  | other
  deriving DecidableEq, Repr

def SurfaceError.message : SurfaceError → String
  | timeout => "A timeout was encountered while trying to acquire the next frame"
  | outdated =>
    "The underlying surface has changed, and therefore the swap chain must be updated"
  | lost => "The swap chain has been lost and needs to be recreated"
  | outOfMemory => "There is no more memory left to allocate a new frame"
  | other =>
    "Acquiring a texture failed with a generic error. Check error callbacks for more information"

/-- Something to draw to. -/
structure Target where
  view : View
  format : TargetFormat
  width : UInt32
  height : UInt32
  deriving DecidableEq, Repr

/-- The bindings of the drawing pipeline: the texture and the scale. -/
def blitEntries : List Shader.Entry := [⟨0, .texture .f32 false⟩, ⟨1, .uniform⟩]

/-- The calls that make the drawing pipeline for a format. -/
def createBlit (format : TargetFormat) (d : Device) : Device :=
  let d := d.createShaderModule "webcs_blit_shader" .wgsl
  let d := d.createBindGroupLayout "webcs_blit_layout" blitEntries
  let d := d.createPipelineLayout "webcs_blit_pipeline_layout" 1
  d.createRenderPipeline "webcs_blit_pipeline" format

/-- How many texels of a texture there are for one pixel of a target, for both axes. An extent of
zero counts as one. -/
def blitScale (t : Texture) (target : Target) : HostData :=
  .f32 [Binary32.ratio t.width.toNat (max target.width.toNat 1),
    Binary32.ratio t.height.toNat (max target.height.toNat 1), Binary32.zero, Binary32.zero]

/-- The calls that draw a texture to a target. -/
def drawBlit (t : Texture) (target : Target) (d : Device) : Device :=
  let (scale, d) := d.createBufferInit (blitScale t target).toBytes "webcs_blit_scale"
  let group := [ResourceId.texture t.number, .buffer scale]
  (d.createBindGroup "webcs_blit" group).submitDraw target.view group

/-- Makes the drawing pipeline for a format, unless it is among those made before. -/
def ensureBlit (made : List TargetFormat) (format : TargetFormat) : Work (List TargetFormat) :=
  if made.contains format then pure made
  else do
    Work.checked .buildBlit fun d => ((), createBlit format d)
    return made ++ [format]

/-- Refuses a texture that cannot be shown. -/
def checkDisplayable (t : Texture) : Work Unit :=
  if t.format.sample = .f32 then pure () else throw (.usage (.undisplayable t.format))

/-- Draws a texture to a target for which the pipeline is made. -/
def blit (t : Texture) (target : Target) : Work Unit :=
  Work.checked .present fun d => ((), drawBlit t target d)

end ComputeKernel.Device
