import ComputeKernel.Access
import ComputeKernel.Argument
import ComputeKernel.Binary
import ComputeKernel.Body.Comment
import ComputeKernel.Body.Declaration
import ComputeKernel.Body.Hoist
import ComputeKernel.Body.Store
import ComputeKernel.Body.Subscript
import ComputeKernel.Body.Uniform
import ComputeKernel.Body.Use
import ComputeKernel.Bytes
import ComputeKernel.CommandLine.Execute
import ComputeKernel.CommandLine.Folder
import ComputeKernel.CommandLine.Options
import ComputeKernel.CommandLine.Report
import ComputeKernel.CommandLine.Task
import ComputeKernel.Config.Basic
import ComputeKernel.Config.Json
import ComputeKernel.Count
import ComputeKernel.Declaration
import ComputeKernel.Device.Adapter
import ComputeKernel.Device.Basic
import ComputeKernel.Device.Event
import ComputeKernel.Device.Memory
import ComputeKernel.Device.Present
import ComputeKernel.Device.Resource
import ComputeKernel.Device.Transfer
import ComputeKernel.Dialect.Basic
import ComputeKernel.Dialect.Emit
import ComputeKernel.Dialect.Phrase
import ComputeKernel.Failure
import ComputeKernel.HostData
import ComputeKernel.Image
import ComputeKernel.Json.Basic
import ComputeKernel.Json.Escape
import ComputeKernel.Json.Number
import ComputeKernel.Json.Reader
import ComputeKernel.Json.Writer
import ComputeKernel.Kernel.Basic
import ComputeKernel.Kernel.Binding
import ComputeKernel.Kernel.Read
import ComputeKernel.Kernel.Run
import ComputeKernel.Kernel.Uniform
import ComputeKernel.Layout
import ComputeKernel.Log
import ComputeKernel.Main
import ComputeKernel.NameMap
import ComputeKernel.Numeral
import ComputeKernel.ParamType
import ComputeKernel.Scalar
import ComputeKernel.Session.Basic
import ComputeKernel.Session.Perform
import ComputeKernel.Shader.Entry
import ComputeKernel.Shader.Module
import ComputeKernel.Shader.Program
import ComputeKernel.Shader.Reflection
import ComputeKernel.Text.Blank
import ComputeKernel.Text.Bracket
import ComputeKernel.Text.Cut
import ComputeKernel.Text.Quoted
import ComputeKernel.Text.Word
import ComputeKernel.Proofs.Effect
import ComputeKernel.Proofs.Turn
import ComputeKernel.Proofs.Preparation
import ComputeKernel.Proofs.Refusal
import ComputeKernel.Proofs.Launch
import ComputeKernel.Proofs.Slots
import ComputeKernel.Proofs.Reflection
import ComputeKernel.Proofs.Drafting
import ComputeKernel.Proofs.Wording
import ComputeKernel.Proofs.Emission
import ComputeKernel.Proofs.History
import ComputeKernel.Proofs.Use
import ComputeKernel.Proofs.Coherence
import ComputeKernel.Proofs.Lifetime
import ComputeKernel.Proofs.Typing
import ComputeKernel.Proofs.Room
import ComputeKernel.Proofs.Growth
import ComputeKernel.Proofs.Ownership
import ComputeKernel.Proofs.Destruction
import ComputeKernel.Proofs.Atomicity
import ComputeKernel.Proofs.Level
import ComputeKernel.Proofs.Substitution
import ComputeKernel.Proofs.Readback
import ComputeKernel.Proofs.Phrasing
import ComputeKernel.Proofs.Translation
import ComputeKernel.Proofs.Naming
import ComputeKernel.Proofs.Assembly
import ComputeKernel.Proofs.Persistence
import ComputeKernel.Proofs.HostBytes
import ComputeKernel.Proofs.Housing
import ComputeKernel.Proofs.Uploads
import ComputeKernel.Proofs.RoundTrip
import ComputeKernel.Proofs.Transcription
import ComputeKernel.Proofs.Places
import ComputeKernel.Proofs.Exchange
import ComputeKernel.Proofs.Storing
import ComputeKernel.Proofs.Inference
import ComputeKernel.Proofs.Agreement
import ComputeKernel.Proofs.Nesting
import ComputeKernel.Proofs.Completeness
import ComputeKernel.Proofs.Division
import ComputeKernel.Proofs.Reproduction
import ComputeKernel.Proofs.Partition
import ComputeKernel.Proofs.ArgumentForms
import ComputeKernel.Proofs.Acceptance
import ComputeKernel.Proofs.Texels
import ComputeKernel.Proofs.Discovery
import ComputeKernel.Proofs.Comments
import ComputeKernel.Proofs.Extraction
import ComputeKernel.Proofs.Counting
import ComputeKernel.Proofs.Outputs
import ComputeKernel.Proofs.HoistOffsets
