import ComputeKernel.Body.Hoist
import ComputeKernel.Body.Subscript
import ComputeKernel.Body.Uniform

/-!
# Uses of parameters

In a kernel body an image is used as if it were an array of rows, and a buffer as if it were an
array. `phraseUses` writes these uses in the phrases of a dialect: loads and stores for images
and, in GLSL, members of a block for buffers. `Parts.ofBody` takes a body apart and phrases the
uses in each part.
-/

namespace ComputeKernel.Body

open Text

/-- How the uses of a parameter are phrased. -/
inductive Form where
  | buffer
  | image (readWrite : Bool)
  deriving DecidableEq, Repr

/-- Where a subscripted image is used. -/
def imageCoords : List (List Char) → Coords
  | [row, col] => .rowCol (trim row) (trim col)
  | pos :: _ => .position (trim pos)
  | [] => .position []

/-- A use of an image: a load, a store, or a load and a store of what an operator makes of it. -/
def phraseImage (d : Dialect) (name : List Char) (readWrite : Bool) (s : Subscript) : List Char :=
  let place := imageCoords s.indices
  match s.assign with
  | none => d.imageLoad name place readWrite
  | some ⟨none, value⟩ => d.imageStore name place value
  | some ⟨some op, value⟩ =>
    d.imageStore name place
      (d.imageLoad name place readWrite ++ [' ', op, ' ', '('] ++ value ++ [')'])

/-- A use of a buffer. -/
def phraseBuffer (d : Dialect) (name : List Char) (s : Subscript) : List Char :=
  let element := d.bufferElement name (s.indices.head?.getD [])
  match s.assign with
  | none => element
  | some ⟨none, value⟩ => element ++ " = ".toList ++ value
  | some ⟨some op, value⟩ => element ++ [' ', op, '=', ' '] ++ value

/-- Phrases the uses of a parameter if it is an image. -/
def phraseIfImage (d : Dialect) (text : List Char) (p : String × Form) : List Char :=
  match p.2 with
  | .image readWrite =>
    substitute p.1.toList 2 (phraseImage d p.1.toList readWrite) text
  | .buffer => text

/-- Phrases the uses of a parameter if it is a buffer. -/
def phraseIfBuffer (d : Dialect) (text : List Char) (p : String × Form) : List Char :=
  match p.2 with
  | .image _ => text
  | .buffer => substitute p.1.toList 1 (phraseBuffer d p.1.toList) text

/-- Phrases the uses of all parameters, images first, and takes out the uniform markers. Buffers
need no phrasing in WGSL. -/
def phraseUses (d : Dialect) (params : List (String × Form)) (text : List Char) : List Char :=
  let text := params.foldl (phraseIfImage d) text
  let text := match d with
    | .wgsl => text
    | .glsl => params.foldl (phraseIfBuffer d) text
  dropMarkers text

/-- A kernel body taken apart. -/
structure Parts where
  shared : List (List Char)
  constants : List (List Char)
  helpers : List (List Char)
  body : List Char
  deriving DecidableEq, Repr

namespace Parts

/-- Takes a body apart and phrases the uses in its constants, its helpers and what remains. -/
def ofBody (d : Dialect) (params : List (String × Form)) (body : List Char) : Parts :=
  let (body, shared) := hoistShared d body
  let (body, helpers) := hoistHelpers d body
  let (body, constants) := hoistConstants body
  { shared
    constants := constants.map (phraseUses d params)
    helpers := helpers.map (phraseUses d params)
    body := phraseUses d params body }

/-- The parts outside the body, in the order in which they are emitted. -/
def outside (p : Parts) : List (List Char) := p.shared ++ p.constants ++ p.helpers

/-- All of the text, with each part outside the body on lines of its own. -/
def allText (p : Parts) : List Char := p.outside.flatMap (· ++ ['\n']) ++ p.body

end Parts

end ComputeKernel.Body
