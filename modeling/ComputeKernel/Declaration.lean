import ComputeKernel.Failure
import ComputeKernel.Text.Word

/-!
# Declarations of parameters

A declaration says what a parameter is: its type and, for an image, possibly the format and the
access mode. It is read from a tag, with or without further settings, or from a resource type of
WGSL that stands in a kernel body. A parameter list names the parameters, and the names have to be
identifiers that the dialect leaves free and that differ.
-/

namespace ComputeKernel

/-- What a parameter is declared as. -/
structure Declaration where
  type : ParamType
  format : Option ImageFormat := none
  access : Option Access := none
  deriving DecidableEq, Repr

namespace Declaration

open Text

/-- A parameter that nothing declares is a buffer of floats. -/
instance : Inhabited Declaration := ⟨⟨.buffer .f32, none, none⟩⟩

/-- Reads a tag. Blanks around it do not count. -/
def ofTag (tag : String) : Except ConfigurationFault Declaration :=
  let tag := trim tag.toList
  match ParamType.resolve? tag with
  | some (type, format) => .ok ⟨type, format, none⟩
  | none => .error (.unknownTag (String.ofList tag))

/-- The arguments of a generic type, for a text of the form `head<a,b,c>`. -/
def typeArguments? (head : List Char) (type : List Char) : Option (List String) :=
  match after? (head ++ ['<']) type with
  | none => none
  | some r => (ParamType.before? ['>'] r).map fun inner => (inner.splitOn ',').map String.ofList

/-- The declaration that a resource type of WGSL stands for. -/
def ofShaderType? (type : List Char) : Option Declaration :=
  let type := compact type
  match typeArguments? "array".toList type with
  | some args =>
    (args.head?.bind Scalar.ofKeyword?).map fun kind => ⟨.buffer kind, none, none⟩
  | none =>
    match typeArguments? "texture_2d".toList type with
    | some args =>
      match args.head?.bind Scalar.ofKeyword? with
      | some .f32 => some ⟨.texture, none, none⟩
      | some .f64 | none => none
      | some kind => some ⟨.image kind, none, none⟩
    | none =>
      match typeArguments? "texture_storage_2d".toList type with
      | some args =>
        (args.head?.bind ImageFormat.ofName?).bind fun format =>
          match args[1]? with
          | some mode =>
            (Access.ofName? mode).map fun access => ⟨format.paramType, some format, some access⟩
          | none => some ⟨format.paramType, some format, none⟩
      | none => none

end Declaration

/-- The names in a list that is written with commas. A blank list has none. -/
def parseNames (list : String) : List String :=
  let cs := list.toList
  if (Text.trim cs).isEmpty then []
  else (cs.splitOn ',').map fun n => String.ofList (Text.trim n)

/-- What is wrong with `name`, which stands at `position` after the names `earlier`. -/
def nameFault? (d : Dialect) (earlier : List String) (position : Nat) (name : String) :
    Option ConfigurationFault :=
  if !Text.isIdentifier name.toList then some (.notIdentifier position name)
  else if d.isReserved name then some (.reservedName name d)
  else if earlier.contains name then some (.repeatedName name)
  else none

/-- The first thing that is wrong with a list of parameter names. -/
def namesFault? (d : Dialect) (names : List String) : Option ConfigurationFault :=
  go [] names
where
  /-- The first fault from the names after `earlier` on. -/
  go (earlier : List String) : List String → Option ConfigurationFault
    | [] => none
    | n :: r => (nameFault? d earlier earlier.length n).or (go (earlier ++ [n]) r)

end ComputeKernel
