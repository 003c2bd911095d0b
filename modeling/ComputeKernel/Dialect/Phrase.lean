import ComputeKernel.Dialect.Basic
import ComputeKernel.Text.Blank

/-!
# Phrases

How each dialect writes what a kernel body does with its parameters: loading and storing a texel,
reaching a buffer element, declaring a function.
-/

namespace ComputeKernel

/-- Where a texel stands: a row and a column, or one expression that is a position. -/
inductive Coords where
  | rowCol (row col : List Char)
  | position (pos : List Char)
  deriving DecidableEq, Repr

/-- The coordinates as one expression. Both dialects give the column first. -/
def Coords.text : Dialect → Coords → List Char
  | .wgsl, rowCol row col =>
    "vec2<i32>(i32(".toList ++ col ++ "), i32(".toList ++ row ++ "))".toList
  | .wgsl, position pos => "vec2<i32>(".toList ++ pos ++ ")".toList
  | .glsl, rowCol row col =>
    "ivec2(int(".toList ++ col ++ "), int(".toList ++ row ++ "))".toList
  | .glsl, position pos => "ivec2(".toList ++ pos ++ ")".toList

namespace Dialect

/-- The call that stores `value` at a texel. -/
def imageStore (d : Dialect) (name : List Char) (place : Coords) (value : List Char) : List Char :=
  d.storeFunction.toList ++ "(".toList ++ name ++ ", ".toList ++ place.text d ++ ", ".toList ++
    value ++ ")".toList

/-- The call that loads a texel. In WGSL an image that is only read is loaded at a level. -/
def imageLoad (d : Dialect) (name : List Char) (place : Coords) (readWrite : Bool) : List Char :=
  match d with
  | wgsl =>
    "textureLoad(".toList ++ name ++ ", ".toList ++ place.text d ++
      (if readWrite then ")" else ", 0)").toList
  | glsl => "imageLoad(".toList ++ name ++ ", ".toList ++ place.text d ++ ")".toList

/-- The expression for an element of a buffer. -/
def bufferElement (d : Dialect) (name index : List Char) : List Char :=
  match d with
  | wgsl => name ++ "[".toList ++ index ++ "]".toList
  | glsl => name ++ ".data[".toList ++ index ++ "]".toList

/-- The head of a function definition. -/
def functionHead (d : Dialect) (name args : List Char) (result : Option (List Char)) : List Char :=
  match d with
  | wgsl =>
    "fn ".toList ++ name ++ "(".toList ++ args ++ ")".toList ++
      match result with
      | some r => " -> ".toList ++ r
      | none => []
  | glsl => result.getD "void".toList ++ " ".toList ++ name ++ "(".toList ++ args ++ ")".toList

/-- The function that holds the kernel body. -/
def bodyDefinition (d : Dialect) (body : List Char) : List Char :=
  (match d with
    | wgsl => "fn ".toList
    | glsl => "void ".toList) ++
    bodyFunction.toList ++ "() \x7b\n".toList ++ Text.trimEnd body ++ "\n\x7d\n".toList

end Dialect

end ComputeKernel
