import ComputeKernel.Log
import ComputeKernel.Shader.Module

/-!
# Reflection

The layout of a complete shader is read off what a front end says about it. The variables bound in
group 0 are parameters: storage buffers that end in an array of scalars, and plain two-dimensional
images. Those bound in group 1 are uniforms: vectors of four scalars, bare or as the only member of
a block, whose name then counts. Variables of other groups are passed over with a warning. The
bindings of a group have to be numbered from 0 without a gap.
-/

namespace ComputeKernel.Shader

/-- The element of the array that a type ends in, looking through the last members of blocks. -/
def arrayElement? : VarType → Option Scalar
  | .array (.scalar kind) _ => kind.slot?
  | .struct members => lastElement? members
  | _ => none
where
  /-- The element of the array that the last of some members ends in. -/
  lastElement? : List (Option String × VarType) → Option Scalar
    | [] => none
    | [(_, t)] => arrayElement? t
    | _ :: m :: r => lastElement? (m :: r)

/-- The format in which a sampled image of a scalar is bound. -/
def sampledFormat? : ScalarType → Option ImageFormat
  | .f32 | .f64 => some .rgba8unorm
  | .u32 | .u64 => some .rgba32uint
  | .i32 | .i64 => some .rgba32sint
  | .bool => none

/-- The slot kind of a plain two-dimensional image. -/
def imageKind? : ImageClass → Option SlotKind
  | .sampled kind false => (sampledFormat? kind).map fun f => .texture f.paramType f .read
  | .sampled _ true => none
  | .depth => none
  | .storage format access => format.map fun f => .texture f.paramType f access.mode

/-- The slot kind of a variable bound as a parameter. -/
def paramKind? (space : AddressSpace) (type : VarType) : Option SlotKind :=
  match space, type with
  | .storage _, t => (arrayElement? t).map fun kind => .buffer (.buffer kind)
  | .handle, .image .d2 false cls => imageKind? cls
  | _, _ => none

/-- The scalar of a vector of four. -/
def quadScalar? : VarType → Option Scalar
  | .vector 4 kind => kind.slot?
  | _ => none

/-- The scalar of a variable bound as a uniform, with the name of the block's member if there is
one. -/
def uniformKind? (space : AddressSpace) (type : VarType) : Option (Option String × Scalar) :=
  match space with
  | .uniform =>
    match type with
    | .struct [(name, t)] => (quadScalar? t).map (name, ·)
    | t => (quadScalar? t).map (none, ·)
  | _ => none

/-- The slots found so far. -/
structure Slots where
  params : List ParamSlot
  uniforms : List UniformSlot
  deriving DecidableEq, Repr

/-- Adds the slot of a variable. -/
def addVar (slots : Slots) (v : GlobalVar) : Logged Slots :=
  match v.place with
  | none => pure slots
  | some ⟨group, binding⟩ =>
    let name := v.name.getD ""
    if group = paramGroup then
      match paramKind? v.space v.type with
      | some kind => pure { slots with params := slots.params ++ [⟨name, binding, kind⟩] }
      | none => throw (.configuration (.notParameter binding name))
    else if group = uniformGroup then
      match uniformKind? v.space v.type with
      | some (member, kind) =>
        pure { slots with uniforms := slots.uniforms ++ [⟨member.getD name, kind, binding⟩] }
      | none => throw (.configuration (.notUniform binding name))
    else do
      Logged.add [⟨.warn, .reflection,
        "ignoring binding group " ++ toString group ++ " in literal kernel"⟩]
      pure slots

/-- The first number that is not the one expected, counting from `expected` on. -/
def gap? (group expected : Nat) : List Nat → Option ConfigurationFault
  | [] => none
  | n :: r => if n = expected then gap? group (expected + 1) r
    else some (.sparseBindings group n expected)

/-- The entry point that the device calls. -/
def ShaderModule.main? (m : ShaderModule) : Option EntryPoint :=
  m.entryPoints.find? fun e => e.name == Dialect.entryPoint && e.stage == .compute

/-- The layout of a shader. -/
def ShaderModule.layout (m : ShaderModule) : Logged Layout := do
  let slots ← m.vars.foldlM addVar ⟨[], []⟩
  let params := slots.params.mergeSort fun a b => decide (a.index ≤ b.index)
  let uniforms := slots.uniforms.mergeSort fun a b => decide (a.index ≤ b.index)
  Logged.refuse (gap? paramGroup 0 (params.map (·.index)))
  Logged.refuse (gap? uniformGroup 0 (uniforms.map (·.index)))
  match m.main? with
  | some e => pure ⟨params, uniforms, e.workgroupSize⟩
  | none => throw (.configuration .noEntryPoint)

end ComputeKernel.Shader
