import ComputeKernel.Shader.Module

/-!
# Bind group layouts

A bind group layout has an entry for each binding of a group, which says what may be bound there.
For an emitted shader the entries follow from its layout; for a complete shader they follow from
what a front end says about it, with the access that the shader itself declares.
-/

namespace ComputeKernel.Shader

/-- What may be bound at a binding. -/
inductive EntryType where
  | uniform
  | storage (readOnly : Bool)
  | texture (sample : Scalar) (multisampled : Bool)
  | storageTexture (format : ImageFormat) (access : Access)
  deriving DecidableEq, Repr

/-- An entry of a bind group layout. -/
structure Entry where
  binding : Nat
  type : EntryType
  deriving DecidableEq, Repr

/-- The entry of a parameter slot. An image that is only read is a texture in WGSL and a storage
texture in GLSL. -/
def paramEntry (d : Dialect) (s : ParamSlot) : Entry :=
  match d, s.kind with
  | _, .buffer _ => ⟨s.index, .storage false⟩
  | .wgsl, .texture _ format .read => ⟨s.index, .texture format.sample false⟩
  | _, .texture _ format access => ⟨s.index, .storageTexture format access⟩

/-- The entries of a layout for group 0. -/
def paramEntries (d : Dialect) (l : Layout) : List Entry := l.params.map (paramEntry d)

/-- The entries of a layout for group 1. -/
def uniformEntries (l : Layout) : List Entry := l.uniforms.map fun s => ⟨s.index, .uniform⟩

/-- The scalar that a sampled image is sampled as. -/
def sampleScalar : ScalarType → Scalar
  | .u32 | .u64 => .u32
  | .i32 | .i64 => .i32
  | .f32 | .f64 | .bool => .f32

/-- What may be bound to a variable, if anything. -/
def entryType? (space : AddressSpace) (type : VarType) : Option EntryType :=
  match space, type with
  | .storage access, _ => some (.storage !access.store)
  | .uniform, _ => some .uniform
  | .handle, .image .d2 false (.sampled kind multisampled) =>
    some (.texture (sampleScalar kind) multisampled)
  | .handle, .image .d2 false (.storage format access) =>
    format.map fun f => .storageTexture f access.mode
  | _, _ => none

/-- The entry of a variable in a group, if the variable is bound there. -/
def entryIn? (group : Nat) (v : GlobalVar) : Option (Except ConfigurationFault Entry) :=
  match v.place with
  | none => none
  | some place =>
    if place.group = group then
      some (match entryType? v.space v.type with
        | some type => .ok ⟨place.binding, type⟩
        | none => .error (.noLayoutEntry place.binding group))
    else none

/-- The entries of a group of a complete shader, in the order of their bindings. -/
def ShaderModule.entries (m : ShaderModule) (group : Nat) :
    Except ConfigurationFault (List Entry) :=
  ((m.vars.filterMap (entryIn? group)).mapM id).map fun es =>
    es.mergeSort fun a b => decide (a.binding ≤ b.binding)

end ComputeKernel.Shader
