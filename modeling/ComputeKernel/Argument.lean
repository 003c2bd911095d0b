import ComputeKernel.Device.Resource
import ComputeKernel.Image
import ComputeKernel.NameMap
import ComputeKernel.Numeral

/-!
# Arguments of a run

A kernel is run with one argument for each of its parameters. Three group counts may follow, and
after them a map of uniform values. `RunArgs.split` takes such a list apart, and it refuses every
list of another form.
-/

namespace ComputeKernel

/-- The values of uniforms by their names. -/
abbrev UniformMap := NameMap (List Binary64)

/-- A dump of the values of uniforms. -/
def UniformMap.dump (values : UniformMap) : String :=
  let entry := fun (e : String × List Binary64) =>
    Text.quoted e.1 ++ ": [" ++ ", ".intercalate (e.2.map Binary64.dump) ++ "]"
  "\x7b" ++ ", ".intercalate (values.entries.map entry) ++ "\x7d"

/-- An argument of a run, where resources are given as `ρ`. -/
inductive Argument (ρ : Type) where
  /-- Keeps what the slot holds, and makes something where it holds nothing. -/
  | null
  | resource (r : ρ)
  | host (data : HostData)
  | image (image : Image)
  | group (count : UInt32)
  | uniforms (values : UniformMap)
  deriving DecidableEq

namespace Argument

/-- The argument with its resource looked up. -/
def resolve? {ρ σ : Type} (f : ρ → Option σ) : Argument ρ → Option (Argument σ)
  | null => some null
  | resource r => (f r).map resource
  | host data => some (host data)
  | image i => some (image i)
  | group count => some (group count)
  | uniforms values => some (uniforms values)

/-- Whether an argument can stand for a parameter. -/
def isParamValue {ρ : Type} : Argument ρ → Bool
  | group _ | uniforms _ => false
  | _ => true

/-- What an argument is, in words. -/
def kind : Argument Device.Resource → String
  | null => "null"
  | resource (.buffer _) => "buffer"
  | resource (.texture _) => "texture"
  | host _ => "host data"
  | image _ => "image"
  | group _ => "group count"
  | uniforms _ => "uniform map"

/-- A dump of an argument that a slot may not take. -/
def dump {ρ : Type} : Argument ρ → String
  | image i => "Image(" ++ i.dump ++ ")"
  | group count => "Group(" ++ toString count.toNat ++ ")"
  | uniforms values => "Uniforms(" ++ UniformMap.dump values ++ ")"
  -- Every slot takes the others.
  | null | resource _ | host _ => ""

/-- The shape that an argument has of its own. -/
def shape? : Argument Device.Resource → Option Shape
  | resource r => some r.shape
  | host _ => some .buffer
  | image _ => some .image
  | _ => none

/-- The resource that an argument hands over. -/
def resource? {ρ : Type} : Argument ρ → Option ρ
  | resource r => some r
  | _ => none

end Argument

/-- The arguments of a run, taken apart. -/
structure RunArgs where
  params : List (Argument Device.Resource)
  groups : Option Extent
  uniforms : Option UniformMap
  deriving DecidableEq

namespace RunArgs

/-- The map at the end of some arguments, if there is one, and the arguments before it. -/
def splitUniforms (args : List (Argument Device.Resource)) :
    List (Argument Device.Resource) × Option UniformMap :=
  match args.getLast? with
  | some (.uniforms values) => (args.dropLast, some values)
  | _ => (args, none)

/-- The count that an argument gives. -/
def groupCount : Argument Device.Resource → Except UsageFault UInt32
  | .group count => .ok count
  | a => .error (.notGroupCount a.kind)

/-- The group counts that follow the parameters, of which there are three or none. -/
def groupCounts (arity : UsageFault) :
    List (Argument Device.Resource) → Except UsageFault (Option Extent)
  | [] => .ok none
  | [a, b, c] => do
    let x ← groupCount a
    let y ← groupCount b
    let z ← groupCount c
    return some ⟨x, y, z⟩
  | _ => .error arity

/-- What is wrong with the arguments for the parameters, counted from `position` on. -/
def paramsFault? (position : Nat) : List (Argument Device.Resource) → Option UsageFault
  | [] => none
  | a :: r =>
    if a.isParamValue then paramsFault? (position + 1) r
    else some (.notParameterValue position a.kind)

/-- Takes apart the arguments for a kernel with `count` parameters. -/
def split (count : Nat) (args : List (Argument Device.Resource)) : Except UsageFault RunArgs :=
  let arity := UsageFault.arity count args.length
  if args.length < count ∨ count + 4 < args.length then .error arity
  else do
    let (trailer, uniforms) := splitUniforms (args.drop count)
    let groups ← groupCounts arity trailer
    let params := args.take count
    match paramsFault? 0 params with
    | some fault => .error fault
    | none => return ⟨params, groups, uniforms⟩

end RunArgs

end ComputeKernel
