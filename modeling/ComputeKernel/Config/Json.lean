import ComputeKernel.Binary
import ComputeKernel.Config.Basic
import ComputeKernel.Json.Reader
import ComputeKernel.Json.Writer

/-!
# Configurations as JSON

A configuration is an object with the members `local_size`, `groups`, `params` and `target`, or an
array of them in this order; what is missing has its default. Members of other names are passed
over, and a known member may not stand twice. In `params` the last entry of a name counts, and an
entry has to make sense as a whole: its strings have to be texts, its numbers have to lie within
the range of a double, and it may not be nested too deeply.
-/

namespace ComputeKernel

namespace Json

/-- The text of a string. -/
def text? : Json → Option String
  | string raw => decode? raw
  | _ => none

/-- The members of an object by their names. -/
def members? : Json → Option (List (String × Json))
  | object members => members.mapM fun m => (decode? m.1).map (·, m.2)
  | _ => none

/-- The value of the one member of a name. The outer level is missing if there are several. -/
def member? (name : String) (members : List (String × Json)) : Option (Option Json) :=
  match members.filter (·.1 == name) with
  | [] => some none
  | [m] => some (some m.2)
  | _ => none

/-- A natural number of 32 bits. -/
def word? : Json → Option UInt32
  | number ds =>
    match natural? ds with
    | some n => if n < UInt32.size then some (UInt32.ofNat n) else none
    | none => none
  | _ => none

/-- Whether a number is within the range of a double. -/
def inDoubleRange (digits : List Char) : Bool :=
  (Binary64.ofDecimal? (Decimal.ofDigits digits)).isSome

mutual

/-- Whether every string is a text and every number is within the range of a double. -/
def isSound : Json → Bool
  | number ds => inDoubleRange ds
  | string raw => (decode? raw).isSome
  | array items => soundItems items
  | object members => soundMembers members
  | _ => true

/-- Whether all of some values are sound. -/
def soundItems : List Json → Bool
  | [] => true
  | j :: r => isSound j && soundItems r

/-- Whether all of some members are sound, names included. -/
def soundMembers : List (List Char × Json) → Bool
  | [] => true
  | (key, j) :: r => (decode? key).isSome && isSound j && soundMembers r

end

end Json

open Json

/-- Three counts are an array of three numbers of 32 bits. -/
def Extent.ofJson? : Json → Option Extent
  | array [x, y, z] =>
    match word? x, word? y, word? z with
    | some x, some y, some z => some ⟨x, y, z⟩
    | _, _, _ => none
  | _ => none

def Extent.toJson (e : Extent) : Json :=
  array [ofNat e.x.toNat, ofNat e.y.toNat, ofNat e.z.toNat]

/-- A dialect is its name, or an object that has it as the name of a member without a value. -/
def Dialect.ofJson? : Json → Option Dialect
  | string raw => (decode? raw).bind ofName?
  | object [(key, null)] => (decode? key).bind ofName?
  | _ => none

namespace ParamSpec

/-- How deeply an entry may be nested: a whole text to 127 levels, of which two are around the
entry. -/
def maxDepth : Nat := 125

/-- A text that may be missing or null. -/
def optionalText? : Option Json → Option (Option String)
  | none | some null => some none
  | some j => (text? j).map some

/-- An entry is a string, or an object whose member `type` is a string. -/
def ofJson? (j : Json) : Option ParamSpec :=
  if !j.isSound || maxDepth < j.depth then none
  else
    match j with
    | string raw => (decode? raw).map tag
    | object _ =>
      match members? j with
      | none => none
      | some ms =>
        match member? "type" ms, member? "attr" ms, member? "rwmode" ms with
        | some (some type), some attr, some rwmode =>
          match text? type, optionalText? attr, optionalText? rwmode with
          | some type, some attr, some rwmode => some (detailed type attr rwmode)
          | _, _, _ => none
        | _, _, _ => none
    | _ => none

/-- An optional member with a text. -/
def optionalMember (name : String) (value : Option String) : List (String × Json) :=
  value.toList.map fun v => (name, ofString v)

def toJson : ParamSpec → Json
  | tag t => ofString t
  | detailed type attr rwmode =>
    ofMembers ([("type", ofString type)] ++ optionalMember "attr" attr ++
      optionalMember "rwmode" rwmode)

end ParamSpec

namespace Config

/-- A value that has a default. -/
def orDefault {α : Type} (read : Json → Option α) (default : α) : Option Json → Option α
  | none => some default
  | some j => read j

/-- Group counts may be null. -/
def groupsOfJson? : Json → Option (Option Extent)
  | null => some none
  | j => (Extent.ofJson? j).map some

/-- The parameter entries are an object. -/
def paramsOfJson? (j : Json) : Option (NameMap ParamSpec) :=
  match members? j with
  | none => none
  | some ms => (ms.mapM fun m => (ParamSpec.ofJson? m.2).map (m.1, ·)).map NameMap.ofList

/-- A configuration from its four members. -/
def ofFields? (localSize groups params target : Option Json) : Option Config :=
  let base : Config := default
  match orDefault Extent.ofJson? base.localSize localSize, orDefault groupsOfJson? none groups,
      orDefault paramsOfJson? .empty params, orDefault Dialect.ofJson? base.dialect target with
  | some localSize, some groups, some params, some dialect =>
    some ⟨localSize, groups, params, dialect⟩
  | _, _, _, _ => none

/-- A configuration is an object, or an array of at most four fields. -/
def ofJson? (j : Json) : Option Config :=
  match j with
  | object _ =>
    match members? j with
    | none => none
    | some ms =>
      match member? "local_size" ms, member? "groups" ms, member? "params" ms,
          member? "target" ms with
      | some localSize, some groups, some params, some target =>
        ofFields? localSize groups params target
      | _, _, _, _ => none
  | array items =>
    if items.length ≤ 4 then ofFields? items[0]? items[1]? items[2]? items[3]? else none
  | _ => none

def toJson (c : Config) : Json :=
  ofMembers ([("local_size", c.localSize.toJson)] ++
    (c.groups.toList.map fun g => ("groups", g.toJson)) ++
    [("params", ofMembers (c.params.entries.map fun e => (e.1, e.2.toJson))),
      ("target", ofString c.dialect.name)])

/-- Reads a configuration and checks it. -/
def parse (text : String) : Except ConfigurationFault Config :=
  match (Json.parse? text.toList).bind ofJson? with
  | none => .error .invalidJson
  | some c =>
    match c.fault? with
    | some f => .error f
    | none => .ok c

/-- Writes a configuration without blanks. -/
def write (c : Config) : String := String.ofList c.toJson.compact

end Config

end ComputeKernel
