import ComputeKernel.Dialect.Basic
import ComputeKernel.Layout

/-!
# Failures

Everything that can go wrong, as causes. A cause belongs to one of seven kinds; its wording is in
one place, and a report of it is the kind's heading, the wording and, for a shader that was turned
down, the diagnostics of whoever turned it down. The last kind is no answer to a caller: a number
outgrew the word that it was counted in, and the program stops where it is.
-/

namespace ComputeKernel

/-- The kinds of failures. -/
inductive FailureKind where
  | configuration
  | shaderCompile
  | shaderLink
  | usage
  | unavailable
  | backend
  /-- The program stopped. -/
  | abort
  deriving DecidableEq, Repr

namespace FailureKind

/-- The words a report of this kind starts with. -/
def heading : FailureKind → String
  | configuration => "configuration error: "
  | shaderCompile => "shader compile error: "
  | shaderLink => "shader link error: "
  | usage => "usage error: "
  | unavailable => "GPU backend unavailable: "
  | backend => "GPU backend error: "
  | abort => "aborted: "

/-- Whether reports of this kind carry diagnostics. -/
def hasDiagnostics : FailureKind → Bool
  | shaderCompile | shaderLink => true
  | _ => false

end FailureKind

/-- A failure put into words. -/
structure Report where
  kind : FailureKind
  message : String
  diagnostics : String := ""
  deriving DecidableEq, Repr

namespace Report

/-- The diagnostics, where the kind has any. -/
def diagnostics? (r : Report) : Option String :=
  if r.kind.hasDiagnostics then some r.diagnostics else none

/-- The whole text. Diagnostics stand on lines of their own. -/
def text (r : Report) : String :=
  r.kind.heading ++ r.message ++
    match r.diagnostics? with
    | some d => if d.isEmpty then "" else "\n" ++ d
    | none => ""

end Report

/-- What is wrong with a configuration, a parameter list or a shader's bindings. -/
inductive ConfigurationFault where
  | invalidJson
  | zeroLocalSize (size : Extent)
  | zeroGroups (groups : Extent)
  | unknownTag (tag : String)
  | unknownFormat (name : String)
  | formatForBuffer (format type : String)
  | unknownMode (name : String)
  | ofParameter (name : String) (fault : ConfigurationFault)
  | notIdentifier (position : Nat) (name : String)
  | reservedName (name : String) (dialect : Dialect)
  | repeatedName (name : String)
  | unbindableType (name type : String)
  | noTextureFormat (name : String) (type : ParamType)
  | notParameter (binding : Nat) (name : String)
  | notUniform (binding : Nat) (name : String)
  | sparseBindings (group found expected : Nat)
  | noEntryPoint
  | noLayoutEntry (binding group : Nat)
  | emptyRenderTarget (width height : UInt32)
  | unreadableFile (path reason : String)
  | unwritableFile (path reason : String)
  deriving DecidableEq, Repr

/-- A text between single quotes. -/
def inQuotes (s : String) : String := "'" ++ s ++ "'"

/-- Two extents joined by a cross. -/
def crossed (width height : UInt32) : String :=
  toString width.toNat ++ "x" ++ toString height.toNat

def ConfigurationFault.message : ConfigurationFault → String
  | invalidJson => "invalid kernel configuration"
  | zeroLocalSize size => "local_size components must be > 0, got " ++ size.text
  | zeroGroups groups => "groups components must be > 0, got " ++ groups.text
  | unknownTag tag => "unknown parameter type tag " ++ inQuotes tag
  | unknownFormat name => "unknown image format " ++ inQuotes name
  | formatForBuffer format type =>
    "image format " ++ inQuotes format ++ " given for buffer type " ++ inQuotes type
  | unknownMode name => "unknown rwmode " ++ inQuotes name
  | ofParameter name fault =>
    "parameter " ++ inQuotes name ++ ": " ++ FailureKind.configuration.heading ++ fault.message
  | notIdentifier position name =>
    "parameter " ++ toString position ++ " (" ++ inQuotes name ++ ") is not a valid identifier"
  | reservedName name dialect =>
    "parameter " ++ inQuotes name ++ " collides with a reserved " ++ dialect.name ++ " name"
  | repeatedName name => "parameter " ++ inQuotes name ++ " is declared more than once"
  | unbindableType name type =>
    "cannot bind parameter " ++ inQuotes name ++ " declared as " ++ inQuotes type
  | noTextureFormat name type =>
    "parameter " ++ inQuotes name ++ " of type " ++ inQuotes type.tag ++
      " has no texture representation"
  | notParameter binding name =>
    "binding " ++ toString binding ++ " (" ++ inQuotes name ++ ") in group " ++
      toString paramGroup ++ " is not a buffer or 2-D texture"
  | notUniform binding name =>
    "binding " ++ toString binding ++ " (" ++ inQuotes name ++ ") in group " ++
      toString uniformGroup ++ " is not a 4-wide uniform vector"
  | sparseBindings group found expected =>
    "bindings in group " ++ toString group ++ " must be dense from 0; found " ++
      toString found ++ " where " ++ toString expected ++ " was expected"
  | noEntryPoint => "no compute entry point named " ++ inQuotes Dialect.entryPoint
  | noLayoutEntry binding group =>
    "binding " ++ toString binding ++ " in group " ++ toString group ++
      " has no bind group layout equivalent"
  | emptyRenderTarget width height =>
    "render target must be non-empty, got " ++ crossed width height
  | unreadableFile path reason => "cannot read " ++ path ++ ": " ++ reason
  | unwritableFile path reason => "cannot write " ++ path ++ ": " ++ reason

/-- Why a shader text was turned down. -/
inductive CompileFault where
  /-- The front end of the dialect could not read it. -/
  | unread (dialect : Dialect)
  | invalid
  | noDoubles (adapter : String)
  | moduleRejected (diagnostics : String)
  deriving DecidableEq, Repr

/-- The message and the diagnostics. -/
def CompileFault.message : CompileFault → String × String
  | unread dialect => (dialect.title ++ " front end rejected the program", "")
  | invalid => ("shader validation failed", "")
  | noDoubles adapter =>
    ("kernel uses 64-bit floats",
      "adapter " ++ inQuotes adapter ++ " does not support SHADER_F64")
  | moduleRejected diagnostics => ("backend rejected the shader module", diagnostics)

/-- What a caller did wrong. -/
inductive UsageFault where
  | arity (expected got : Nat)
  | notGroupCount (kind : String)
  | notParameterValue (position : Nat) (kind : String)
  | wrongRank (name : String) (type : ParamType) (got : Nat)
  | wrongFormat (name : String) (expected got : ImageFormat)
  | ofParameter (name : String) (fault : UsageFault)
  | imageLength (width height : UInt32) (expected got : Nat)
  | rgbaLength (width height : UInt32) (expected got : Nat)
  | noImageUpload (format : ImageFormat)
  | zeroGroups (groups : Extent)
  | outputTooLarge (groups : Extent) (name : String)
  | unbindableArgument (argument name : String)
  | uploadTooLong (length size : Nat)
  | uploadTooWide (width height textureWidth textureHeight : UInt32)
  | texelLength (expected got : Nat)
  | emptyTexture (width height : UInt32)
  | noParameter (name : String)
  | noUniform (name : String)
  | tooManyValues (name : String) (got : Nat)
  | unknownHint (hint : String)
  | noResource (name : String)
  | undisplayable (format : ImageFormat)
  deriving DecidableEq, Repr

def UsageFault.message : UsageFault → String
  | arity expected got =>
    "kernel takes " ++ toString expected ++
      " arguments, optionally followed by 3 group counts and/or a uniform map; got " ++
      toString got
  | notGroupCount kind => "expected a group count after the parameters, got " ++ kind
  | notParameterValue position kind =>
    "argument " ++ toString position ++ " is a " ++ kind ++ ", expected a parameter value"
  | wrongRank name type got =>
    "parameter " ++ inQuotes name ++ " is a " ++ toString type.shape.rank ++ "-D " ++ type.tag ++
      ", got a " ++ toString got ++ "-D argument"
  | wrongFormat name expected got =>
    "parameter " ++ inQuotes name ++ " expects a " ++ expected.deviceName ++ " texture, got " ++
      got.deviceName
  | ofParameter name fault =>
    "parameter " ++ inQuotes name ++ ": " ++ FailureKind.usage.heading ++ fault.message
  | imageLength width height expected got =>
    crossed width height ++ " image needs " ++ toString expected ++ " bytes, got " ++ toString got
  | rgbaLength width height expected got =>
    "a " ++ crossed width height ++ " RGBA8 image needs " ++ toString expected ++
      " bytes, got " ++ toString got
  | noImageUpload format =>
    "images cannot be uploaded into a " ++ format.deviceName ++ " texture"
  | zeroGroups groups => "group counts must be non-zero, got " ++ groups.text
  | outputTooLarge groups name =>
    "groups " ++ groups.text ++ " are too large to size a buffer for " ++ inQuotes name
  | unbindableArgument argument name =>
    "argument " ++ argument ++ " cannot be bound to parameter " ++ inQuotes name
  | uploadTooLong length size =>
    "upload of " ++ toString length ++ " bytes exceeds buffer size " ++ toString size
  | uploadTooWide width height textureWidth textureHeight =>
    crossed width height ++ " upload does not fit a " ++ crossed textureWidth textureHeight ++
      " texture"
  | texelLength expected got =>
    "expected " ++ toString expected ++ " bytes of texel data, got " ++ toString got
  | emptyTexture width height => "texture extent must be non-zero, got " ++ crossed width height
  | noParameter name => "kernel has no parameter named " ++ inQuotes name
  | noUniform name => "kernel has no uniform named " ++ inQuotes name
  | tooManyValues name got =>
    "uniform " ++ inQuotes name ++ " holds 4 values, got " ++ toString got
  | unknownHint hint => "unknown readback type " ++ inQuotes hint
  | noResource name => "parameter " ++ inQuotes name ++ " has no resource yet; run the kernel first"
  | undisplayable format =>
    "cannot present a " ++ format.deviceName ++ " texture; only float formats can be displayed"

/-- Why there is no device. -/
inductive UnavailableFault where
  | noAdapter
  | deviceRefused (reason : String)
  deriving DecidableEq, Repr

def UnavailableFault.message : UnavailableFault → String
  | noAdapter => "no compatible GPU adapter found"
  | deviceRefused reason => "device request failed: " ++ reason

/-- An error that the device raised. -/
inductive DeviceError where
  | validation (message : String)
  | outOfMemory
  deriving DecidableEq, Repr

def DeviceError.message : DeviceError → String
  | validation message => message
  | outOfMemory => "Out of Memory"

/-- What the device was asked to do when it raised an error. -/
inductive DeviceTask where
  | allocateBuffer
  | uploadBuffer
  | allocateTexture
  | uploadTexture
  | createBindGroup
  | dispatch
  | buildBlit
  | present
  deriving DecidableEq, Repr

def DeviceTask.failed : DeviceTask → String
  | allocateBuffer => "buffer allocation failed"
  | uploadBuffer => "buffer upload failed"
  | allocateTexture => "texture allocation failed"
  | uploadTexture => "texture upload failed"
  | createBindGroup => "bind group creation failed"
  | dispatch => "dispatch failed"
  | buildBlit => "blit pipeline creation failed"
  | present => "present failed"

/-- How the device failed at its work. -/
inductive BackendFault where
  | raised (task : DeviceTask) (error : DeviceError)
  | bufferLimit (size limit : Nat)
  | textureLimit (width height limit : UInt32)
  | mappingFailed
  | mappingLost
  | noPipeline
  | emptySlot (name : String)
  | noParamGroup
  | noFrame (reason : String)
  deriving DecidableEq, Repr

def BackendFault.message : BackendFault → String
  | raised task error => task.failed ++ ": " ++ error.message
  | bufferLimit size limit =>
    "buffer of " ++ toString size ++ " bytes exceeds the device limit of " ++ toString limit ++
      " bytes"
  | textureLimit width height limit =>
    crossed width height ++ " texture exceeds the device limit of " ++ toString limit.toNat
  | mappingFailed =>
    "buffer mapping failed: Error occurred when trying to async map a buffer"
  | mappingLost => "buffer mapping was never completed"
  | noPipeline => "pipeline was not built"
  | emptySlot name => "slot " ++ inQuotes name ++ " has no resource after binding"
  | noParamGroup => "parameter bind group missing"
  | noFrame reason => "could not acquire surface texture: " ++ reason

/-- The numbers that are counted in a word, where nothing is done about one that is too large. -/
inductive Count where
  /-- The bytes of the pixels of an image. -/
  | pixels
  /-- The bytes of a row of texels. -/
  | row
  /-- The bytes of the texels of a region. -/
  | region
  /-- The distance in bytes at which rows are read back. -/
  | pitch
  /-- The invocations of a workgroup. -/
  | invocations
  deriving DecidableEq, Repr

/-- A failure with its cause. -/
inductive Failure where
  | configuration (fault : ConfigurationFault)
  | shaderCompile (fault : CompileFault)
  | shaderLink (diagnostics : String)
  | usage (fault : UsageFault)
  | unavailable (fault : UnavailableFault)
  | backend (fault : BackendFault)
  | overflow (count : Count)
  deriving DecidableEq, Repr

namespace Failure

def kind : Failure → FailureKind
  | configuration _ => .configuration
  | shaderCompile _ => .shaderCompile
  | shaderLink _ => .shaderLink
  | usage _ => .usage
  | unavailable _ => .unavailable
  | backend _ => .backend
  | overflow _ => .abort

/-- The failure put into words. -/
def report : Failure → Report
  | configuration f => ⟨.configuration, f.message, ""⟩
  | shaderCompile f => ⟨.shaderCompile, f.message.1, f.message.2⟩
  | shaderLink d => ⟨.shaderLink, "backend could not build the compute pipeline", d⟩
  | usage f => ⟨.usage, f.message, ""⟩
  | unavailable f => ⟨.unavailable, f.message, ""⟩
  | backend f => ⟨.backend, f.message, ""⟩
  | overflow _ => ⟨.abort, "attempt to multiply with overflow", ""⟩

/-- The whole text of the failure. -/
def text (f : Failure) : String := f.report.text

end Failure

end ComputeKernel
