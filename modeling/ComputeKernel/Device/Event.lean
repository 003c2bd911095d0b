import ComputeKernel.Bytes
import ComputeKernel.Device.Resource
import ComputeKernel.Failure
import ComputeKernel.Shader.Entry

/-!
# Events

What a device is asked to do, in the order in which it happens. Every event is one line of the
device's log.
-/

namespace ComputeKernel.Device

open Shader

/-- Which adapter is wanted. -/
inductive PowerPreference where
  | none
  | low
  | high
  deriving DecidableEq, Repr

def PowerPreference.name : PowerPreference → String
  | none => "None"
  | low => "LowPower"
  | high => "HighPerformance"

/-- The format of something that is drawn to. -/
inductive TargetFormat where
  | rgba8unorm
  | rgba8unormSrgb
  | bgra8unorm
  | bgra8unormSrgb
  | rgb10a2unorm
  | rgba16float
  deriving DecidableEq, Repr

namespace TargetFormat

def ofName? : String → Option TargetFormat
  | "rgba8unorm" => some rgba8unorm
  | "rgba8unorm-srgb" => some rgba8unormSrgb
  | "bgra8unorm" => some bgra8unorm
  | "bgra8unorm-srgb" => some bgra8unormSrgb
  | "rgb10a2unorm" => some rgb10a2unorm
  | "rgba16float" => some rgba16float
  | _ => none

/-- The name of the format in the device's log. -/
def deviceName : TargetFormat → String
  | rgba8unorm => "Rgba8Unorm"
  | rgba8unormSrgb => "Rgba8UnormSrgb"
  | bgra8unorm => "Bgra8Unorm"
  | bgra8unormSrgb => "Bgra8UnormSrgb"
  | rgb10a2unorm => "Rgb10a2Unorm"
  | rgba16float => "Rgba16Float"

end TargetFormat

/-- What is drawn to: the frame of a surface, or any other view. -/
inductive View where
  | surface
  | view
  deriving DecidableEq, Repr

def View.name : View → String
  | surface => "surface0"
  | view => "view"

/-- The resources of a bind group, by binding. -/
abbrev BindGroup := List ResourceId

inductive Event where
  | requestAdapter (power : PowerPreference)
  | requestDevice (doubles : Bool)
  | createBuffer (number size : Nat) (label : String)
  | createBufferInit (number : Nat) (label : String) (bytes : List UInt8)
  | writeBuffer (number : Nat) (bytes : List UInt8)
  | createTexture (number : Nat) (width height : UInt32) (format : ImageFormat)
  | writeTexture (number : Nat) (width height : UInt32) (rowBytes : Nat) (bytes : List UInt8)
  | destroy (id : ResourceId)
  | createShaderModule (label : String) (dialect : Dialect)
  | createBindGroupLayout (label : String) (entries : List Entry)
  | createPipelineLayout (label : String) (groups : Nat)
  | createComputePipeline (label entryPoint : String)
  | createRenderPipeline (label : String) (format : TargetFormat)
  | createBindGroup (label : String) (group : BindGroup)
  | copyBuffer (source target size : Nat)
  | copyTexture (source target : Nat) (width height : UInt32) (pitch : Nat)
  | dispatch (groups : Extent) (params : BindGroup) (uniforms : Option BindGroup)
  | draw (target : View) (group : BindGroup)
  | map (number : Nat)
  | unmap (number : Nat)
  | present
  deriving DecidableEq, Repr

section Text

/-- Items in brackets, each behind its number. -/
def numbered (items : List (Nat × String)) : String :=
  "[" ++ ", ".intercalate (items.map fun i => toString i.1 ++ ": " ++ i.2) ++ "]"

def groupText (g : BindGroup) : String :=
  numbered (g.zipIdx.map fun p => (p.2, p.1.text))

/-- The name of what a texture is sampled as. -/
def sampleName : Scalar → String
  | .u32 => "uint"
  | .i32 => "sint"
  | .f32 | .f64 => "float"

def entryText : EntryType → String
  | .uniform => "uniform"
  | .storage true => "storage read"
  | .storage false => "storage read_write"
  | .texture sample multisampled =>
    "texture " ++ sampleName sample ++ if multisampled then " multisampled" else ""
  | .storageTexture format access =>
    "storage_texture " ++ format.deviceName ++ " " ++ access.deviceName

/-- How the text of a shader is handed to the device. -/
def sourceForm : Dialect → String
  | .wgsl => "wgsl"
  | .glsl => "naga"

def bufferName (n : Nat) : String := (ResourceId.buffer n).text

def textureName (n : Nat) : String := (ResourceId.texture n).text

/-- Words with a blank between any two. -/
def phrase (words : List String) : String := " ".intercalate words

end Text

/-- The line of an event. -/
def Event.text : Event → String
  | requestAdapter power => phrase ["request_adapter", power.name]
  | requestDevice doubles => "request_device f64=" ++ if doubles then "true" else "false"
  | createBuffer n size label => phrase ["create_buffer", bufferName n, toString size, label]
  | createBufferInit n label bytes =>
    phrase ["create_buffer_init", bufferName n, toString bytes.length, label, Bytes.hex bytes]
  | writeBuffer n bytes => phrase ["write_buffer", bufferName n, Bytes.hex bytes]
  | createTexture n width height format =>
    phrase ["create_texture", textureName n, crossed width height, format.deviceName]
  | writeTexture n width height rowBytes bytes =>
    phrase ["write_texture", textureName n, crossed width height,
      "row=" ++ toString rowBytes, Bytes.hex bytes]
  | destroy id => phrase ["destroy", id.text]
  | createShaderModule label dialect => phrase ["create_shader_module", label, sourceForm dialect]
  | createBindGroupLayout label entries =>
    phrase ["create_bind_group_layout", label,
      numbered (entries.map fun e => (e.binding, entryText e.type))]
  | createPipelineLayout label groups => phrase ["create_pipeline_layout", label, toString groups]
  | createComputePipeline label entryPoint => phrase ["create_compute_pipeline", label, entryPoint]
  | createRenderPipeline label format =>
    phrase ["create_render_pipeline", label, format.deviceName]
  | createBindGroup label group => phrase ["create_bind_group", label, groupText group]
  | copyBuffer source target size =>
    phrase ["copy_buffer", bufferName source, bufferName target, toString size]
  | copyTexture source target width height pitch =>
    phrase ["copy_texture", textureName source, bufferName target, crossed width height,
      "row=" ++ toString pitch]
  | dispatch groups params uniforms =>
    phrase (["dispatch", toString groups.x.toNat, toString groups.y.toNat,
      toString groups.z.toNat, "0=" ++ groupText params] ++
        (uniforms.map fun g => "1=" ++ groupText g).toList)
  | draw target group => phrase ["draw 0..3 0..1 to", target.name, "0=" ++ groupText group]
  | map n => phrase ["map", bufferName n]
  | unmap n => phrase ["unmap", bufferName n]
  | present => "present"

end ComputeKernel.Device
