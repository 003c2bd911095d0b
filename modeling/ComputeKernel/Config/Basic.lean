import ComputeKernel.Declaration
import ComputeKernel.NameMap

/-!
# Kernel configurations

A configuration gives a kernel the size of its workgroups, the number of groups to dispatch, what
some of its parameters are, and the dialect to emit. A configuration is sound when no count in it
is zero and every parameter entry can be resolved.
-/

namespace ComputeKernel

/-- What a configuration says about a parameter: a tag alone, or a tag with further settings. -/
inductive ParamSpec where
  | tag (tag : String)
  | detailed (type : String) (attr rwmode : Option String)
  deriving DecidableEq, Repr

namespace ParamSpec

/-- A declaration with the format that `attr` names in the place of its own. -/
def withFormat (decl : Declaration) (type : String) (attr : Option String) :
    Except ConfigurationFault Declaration :=
  match attr with
  | none => .ok decl
  | some attr =>
    match ImageFormat.ofName? attr with
    | none => .error (.unknownFormat attr)
    | some format =>
      if decl.type.isImage then .ok { decl with type := format.paramType, format := some format }
      else .error (.formatForBuffer attr type)

/-- A declaration with the access mode that `rwmode` names. -/
def withMode (decl : Declaration) (rwmode : Option String) :
    Except ConfigurationFault Declaration :=
  match rwmode with
  | none => .ok decl
  | some mode =>
    match Access.ofName? mode with
    | none => .error (.unknownMode mode)
    | some access => .ok { decl with access := some access }

/-- What a parameter entry declares. -/
def resolve : ParamSpec → Except ConfigurationFault Declaration
  | tag t => Declaration.ofTag t
  | detailed type attr rwmode => do
    let decl ← Declaration.ofTag type
    let decl ← withFormat decl type attr
    withMode decl rwmode

end ParamSpec

/-- The settings of a kernel. -/
structure Config where
  localSize : Extent
  groups : Option Extent
  params : NameMap ParamSpec
  dialect : Dialect
  deriving DecidableEq

namespace Config

/-- A configuration with workgroups of a size and nothing else. -/
def ofSize (localSize : Extent) : Config := ⟨localSize, none, .empty, .wgsl⟩

/-- Workgroups of 32 invocations in a row, emitted in WGSL. -/
instance : Inhabited Config := ⟨ofSize ⟨32, 1, 1⟩⟩

/-- The first thing that is wrong with a configuration, its parameters taken by name. -/
def fault? (c : Config) : Option ConfigurationFault :=
  if c.localSize.hasZero then some (.zeroLocalSize c.localSize)
  else
    match c.groups.filter Extent.hasZero with
    | some groups => some (.zeroGroups groups)
    | none => c.params.entries.findSome? fun e =>
      match e.2.resolve with
      | .ok _ => none
      | .error f => some (.ofParameter e.1 f)

/-- What a configuration declares `name` to be, if it says anything about it. -/
def declared (c : Config) (name : String) : Except ConfigurationFault (Option Declaration) :=
  match c.params.get? name with
  | none => .ok none
  | some spec => spec.resolve.map some

/-- What each parameter is: what the configuration declares, else what `hints` says, else a
buffer of floats. -/
def resolveParams (c : Config) (hints : NameMap Declaration) (names : List String) :
    Except ConfigurationFault (List (String × Declaration)) :=
  names.mapM fun name => (c.declared name).map fun d =>
    (name, d.getD ((hints.get? name).getD default))

/-- The names that a configuration mentions and that are no parameters. -/
def strayNames (c : Config) (names : List String) : List String :=
  c.params.names.filter (!names.contains ·)

end Config

end ComputeKernel
