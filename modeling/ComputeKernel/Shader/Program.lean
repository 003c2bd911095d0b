import ComputeKernel.Body.Comment
import ComputeKernel.Body.Declaration
import ComputeKernel.Body.Store
import ComputeKernel.Config.Basic
import ComputeKernel.Dialect.Emit
import ComputeKernel.Shader.Reflection

/-!
# Programs

A program is a shader text with its layout. It comes from a kernel body, which is taken apart and
emitted, or from a complete shader, which is kept as it is and whose layout is read off. In both
cases a front end has to accept the text.
-/

namespace ComputeKernel.Shader

open Body

/-- How the uses of a declared parameter are phrased. -/
def formOf (d : Declaration) : Form :=
  if d.type.isImage then .image (d.access == some .readWrite) else .buffer

/-- The slot kind of a declared parameter, given the text in which it is used. -/
def slotKind (d : Dialect) (text : List Char) (name : String) (decl : Declaration) :
    Except ConfigurationFault SlotKind :=
  if decl.type.isImage then
    match decl.format.or decl.type.defaultFormat? with
    | some format =>
      .ok (.texture decl.type format (inferAccess d decl.access name.toList text))
    | none => .error (.noTextureFormat name decl.type)
  else .ok (.buffer decl.type)

/-- The slots of declared parameters, numbered from `index` on. -/
def paramSlots (d : Dialect) (text : List Char) :
    (index : Nat) → List (String × Declaration) → Except ConfigurationFault (List ParamSlot)
  | _, [] => .ok []
  | index, (name, decl) :: r => do
    let kind ← slotKind d text name decl
    let slots ← paramSlots d text (index + 1) r
    return ⟨name, index, kind⟩ :: slots

/-- A shader text that no front end has seen yet, with its layout. -/
structure Draft where
  dialect : Dialect
  source : String
  layout : Layout
  deriving DecidableEq, Repr

section Lines

/-- The lines for the declarations found in a body. The first that cannot be bound ends them. -/
def declarationLines (decls : List (String × List Char)) : List LogLine :=
  (decls.takeWhile fun d => (Declaration.ofShaderType? d.2).isSome).map fun d =>
    ⟨.debug, .analysis,
      "parameter " ++ inQuotes d.1 ++ " declared in body as " ++ inQuotes (String.ofList d.2)⟩

/-- The warnings for names that a configuration mentions in vain. -/
def strayLines (names : List String) : List LogLine :=
  names.map fun n =>
    ⟨.warn, .analysis,
      "configuration declares " ++ inQuotes n ++ " which is not a kernel parameter"⟩

/-- The line for the uniforms found in a body. -/
def uniformLine (slots : List UniformSlot) : LogLine :=
  let item := fun (s : UniformSlot) => "(" ++ Text.quoted s.name ++ ", " ++ s.kind.dumpName ++ ")"
  ⟨.debug, .analysis, "discovered uniforms: [" ++ ", ".intercalate (slots.map item) ++ "]"⟩

/-- The line for a parameter slot. -/
def slotLine (s : ParamSlot) : LogLine :=
  ⟨.debug, .assembly,
    "param slot " ++ toString s.index ++ " " ++ inQuotes s.name ++ ": " ++ s.kind.dump⟩

/-- The line for a program made from a body. -/
def assembledLine (d : Draft) : LogLine :=
  ⟨.info, .assembly,
    "assembled " ++ d.dialect.name ++ " kernel: " ++ toString d.layout.params.length ++
      " params, " ++ toString d.layout.uniforms.length ++ " uniforms, workgroup " ++
      d.layout.workgroupSize.text⟩

/-- The line for a program made from a complete shader. -/
def literalLine (d : Draft) : LogLine :=
  ⟨.debug, .assembly,
    "literal " ++ d.dialect.name ++ " kernel: " ++ toString d.layout.params.length ++
      " params, " ++ toString d.layout.uniforms.length ++ " uniforms"⟩

end Lines

/-- Takes the declarations out of a text and settles what every parameter is. -/
def declareParams (names : List String) (config : Config) (text : List Char) :
    Logged (List Char × NameMap Declaration × List (String × Declaration)) := do
  Logged.add (declarationLines (paramDeclarations names text))
  let (text, hints) ← Logged.configured (extractDeclarations names text)
  Logged.add (strayLines (config.strayNames names))
  let decls ← Logged.configured (config.resolveParams hints names)
  return (text, hints, decls)

/-- Makes a shader from a kernel body. -/
def draft (names : List String) (body : List Char) (config : Config) : Logged Draft := do
  let d := config.dialect
  Logged.refuse config.fault?
  Logged.refuse (namesFault? d names)
  let (text, _, decls) ← declareParams names config (stripComments body)
  let uniforms := discoverUniforms text
  Logged.add [uniformLine uniforms]
  let parts := Parts.ofBody d (decls.map fun p => (p.1, formOf p.2)) text
  let params ← Logged.configured (paramSlots d parts.allText 0 decls)
  let layout : Layout := ⟨params, uniforms, config.localSize⟩
  Logged.add (params.map slotLine)
  return ⟨d, d.emit layout parts, layout⟩

/-- A shader text that a front end accepted, with its layout and what the front end said. A
literal program is one that was complete from the start. -/
structure Program where
  dialect : Dialect
  source : String
  layout : Layout
  module : ShaderModule
  isLiteral : Bool
  deriving Repr

/-- What a front end says about a text, or why it turns the text down. -/
def consult (frontEnd : FrontEnd) (d : Dialect) (source : String) : Logged ShaderModule :=
  Logged.ofExcept ((frontEnd d source).mapError .shaderCompile)

/-- How a kernel is given. -/
inductive KernelSource where
  | literal (text : String)
  | body (names : List String) (text : String)
  deriving DecidableEq, Repr

/-- Makes a program from a kernel body. -/
def Program.ofBody (frontEnd : FrontEnd) (names : List String) (body : String) (config : Config) :
    Logged Program := do
  let d ← draft names body.toList config
  let module ← consult frontEnd d.dialect d.source
  Logged.add [assembledLine d]
  return ⟨d.dialect, d.source, d.layout, module, false⟩

/-- Makes a program from a complete shader. -/
def Program.ofLiteral (frontEnd : FrontEnd) (text : String) (d : Dialect) : Logged Program := do
  let module ← consult frontEnd d text
  let layout ← module.layout
  Logged.add [literalLine ⟨d, text, layout⟩]
  return ⟨d, text, layout, module, true⟩

/-- Makes a program from a kernel as it is given. -/
def KernelSource.compile (source : KernelSource) (frontEnd : FrontEnd) (config : Config) :
    Logged Program :=
  match source with
  | literal text => Program.ofLiteral frontEnd text config.dialect
  | body names text => Program.ofBody frontEnd names text config

end ComputeKernel.Shader
