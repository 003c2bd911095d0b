import ComputeKernel.Json.Basic
import ComputeKernel.Json.Escape
import ComputeKernel.Json.Number

/-!
# Writing JSON

A value is written without blanks (`compact`) or with each item and each member on a line of its
own, indented by two blanks for each level (`pretty`).
-/

namespace ComputeKernel.Json

/-- The string for a text. -/
def ofString (s : String) : Json := .string (encode s)

/-- The number for a natural number. -/
def ofNat (n : Nat) : Json := .number (naturalDigits n)

/-- An object from its members. -/
def ofMembers (members : List (String × Json)) : Json :=
  .object (members.map fun m => (encode m.1, m.2))

mutual

/-- A value written without blanks. -/
def compact : Json → List Char
  | null => "null".toList
  | bool true => "true".toList
  | bool false => "false".toList
  | number ds => ds
  | string raw => '"' :: raw ++ ['"']
  | array items => '[' :: compactItems items ++ [']']
  | object members => '{' :: compactMembers members ++ ['}']

/-- Items with commas between them. -/
def compactItems : List Json → List Char
  | [] => []
  | [j] => compact j
  | j :: k :: r => compact j ++ ',' :: compactItems (k :: r)

/-- Members with commas between them. -/
def compactMembers : List (List Char × Json) → List Char
  | [] => []
  | [(key, j)] => '"' :: key ++ '"' :: ':' :: compact j
  | (key, j) :: m :: r => '"' :: key ++ '"' :: ':' :: compact j ++ ',' :: compactMembers (m :: r)

end

/-- The start of a line at a level. -/
def newLine (level : Nat) : List Char := '\n' :: List.replicate (2 * level) ' '

mutual

/-- A value written over several lines, starting at a level. -/
def prettyFrom (level : Nat) : Json → List Char
  | array [] => "[]".toList
  | array (j :: r) =>
    '[' :: newLine (level + 1) ++ prettyFrom (level + 1) j ++ prettyItems (level + 1) r ++
      newLine level ++ [']']
  | object [] => "\x7b\x7d".toList
  | object ((key, j) :: r) =>
    '{' :: newLine (level + 1) ++ '"' :: key ++ "\": ".toList ++ prettyFrom (level + 1) j ++
      prettyMembers (level + 1) r ++ newLine level ++ ['}']
  | null => "null".toList
  | bool true => "true".toList
  | bool false => "false".toList
  | number ds => ds
  | string raw => '"' :: raw ++ ['"']

/-- The items after the first. -/
def prettyItems (level : Nat) : List Json → List Char
  | [] => []
  | j :: r => ',' :: newLine level ++ prettyFrom level j ++ prettyItems level r

/-- The members after the first. -/
def prettyMembers (level : Nat) : List (List Char × Json) → List Char
  | [] => []
  | (key, j) :: r =>
    ',' :: newLine level ++ '"' :: key ++ "\": ".toList ++ prettyFrom level j ++
      prettyMembers level r

end

/-- A value written over several lines. -/
def pretty (j : Json) : List Char := prettyFrom 0 j

end ComputeKernel.Json
