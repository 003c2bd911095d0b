import ComputeKernel.Dialect.Basic
import ComputeKernel.Access
import ComputeKernel.Text.Blank
import ComputeKernel.Text.Cut
import ComputeKernel.Text.Word

/-!
# Stores

A text stores to an image where it calls the dialect's store function with the image as the first
argument. An image without a declared access mode is written if the text stores to it, and only
read otherwise.
-/

namespace ComputeKernel.Body

open Text

/-- Whether a property holds of a text after some of the blanks at its front are dropped. -/
def afterSomeBlanks (p : List Char → Bool) : List Char → Bool
  | [] => p []
  | c :: r => p (c :: r) || (isBlank c && afterSomeBlanks p r)

/-- Whether a text goes on with a comma, after blanks. -/
def commaNext (cs : List Char) : Bool := (trimStart cs).head? == some ','

/-- Whether a store to `name` starts here. -/
def storesHere (d : Dialect) (name : List Char) (before : Option Char) (cs : List Char) : Bool :=
  atWordStart before &&
    match (after? d.storeFunction.toList cs).map trimStart with
    | some ('(' :: r) => afterSomeBlanks (fun r => (after? name r).any commaNext) r
    | _ => false

/-- Whether a text stores to `name` from some position on. -/
def hasStoreFrom (d : Dialect) (name : List Char) : Option Char → List Char → Bool
  | _, [] => false
  | before, c :: r => storesHere d name before (c :: r) || hasStoreFrom d name (some c) r

/-- Whether a text stores to `name`. -/
def hasStore (d : Dialect) (name : List Char) (text : List Char) : Bool :=
  hasStoreFrom d name none text

/-- The access mode of an image: the declared one, else what the text shows. -/
def inferAccess (d : Dialect) (declared : Option Access) (name : List Char) (text : List Char) :
    Access :=
  declared.getD (if hasStore d name text then .write else .read)

end ComputeKernel.Body
