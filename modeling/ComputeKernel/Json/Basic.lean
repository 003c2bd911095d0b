/-!
# JSON documents

A document is kept as it is written: a number keeps its digits and a string keeps its escapes.
What a number or a string means is settled when it is asked for, so that a part nobody asks for
only has to be well formed.
-/

namespace ComputeKernel

/-- A JSON value as written. Strings and member names are the text between the quotes. -/
inductive Json where
  | null
  | bool (b : Bool)
  | number (digits : List Char)
  | string (raw : List Char)
  | array (items : List Json)
  | object (members : List (List Char × Json))
  deriving Repr, Inhabited

namespace Json

mutual

/-- How deeply containers are nested in a value. -/
def depth : Json → Nat
  | array items => depthItems items + 1
  | object members => depthMembers members + 1
  | _ => 0

/-- The greatest depth of some values. -/
def depthItems : List Json → Nat
  | [] => 0
  | j :: r => max (depth j) (depthItems r)

/-- The greatest depth of the values of some members. -/
def depthMembers : List (List Char × Json) → Nat
  | [] => 0
  | (_, j) :: r => max (depth j) (depthMembers r)

end

end Json

end ComputeKernel
