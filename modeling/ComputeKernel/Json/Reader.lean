import ComputeKernel.Json.Basic
import ComputeKernel.Json.Escape
import ComputeKernel.Json.Number
import ComputeKernel.Text.Cut

/-!
# Reading JSON

A text is read token by token. What has been read so far is a stack of containers that are still
open, and what may come next; each token moves this state or ends the reading, so a text of any
depth is read without a limit. `parse?` answers with the value of a whole text, and with nothing
if the text is not one JSON value between blanks.
-/

namespace ComputeKernel.Json

/-- The smallest parts of a text. -/
inductive Token where
  | openArray
  | closeArray
  | openObject
  | closeObject
  | comma
  | colon
  | string (raw : List Char)
  | value (v : Json)
  deriving Inhabited

/-- The blanks of JSON. -/
def isSpace (c : Char) : Bool := c == ' ' || c == '\n' || c == '\t' || c == '\r'

/-- The rest of a string up to its closing quote, and what follows that. Control characters may
not stand in a string, and a backslash has to start an escape. -/
def stringRest? : List Char → Option (List Char × List Char)
  | [] => none
  | '"' :: r => some ([], r)
  | '\\' :: 'u' :: a :: b :: c :: d :: r =>
    if [a, b, c, d].all fun x => (hexDigit? x).isSome then
      (stringRest? r).map fun p => ('\\' :: 'u' :: a :: b :: c :: d :: p.1, p.2)
    else none
  | '\\' :: e :: r =>
    if (letterEscape? e).isSome then (stringRest? r).map fun p => ('\\' :: e :: p.1, p.2)
    else none
  | c :: r =>
    if c == '\\' || c.toNat < 0x20 then none
    else (stringRest? r).map fun p => (c :: p.1, p.2)

/-- The token at the front of a text that does not start with a blank, and what follows it. -/
def token? (cs : List Char) : Option (Token × List Char) :=
  match cs with
  | '[' :: r => some (.openArray, r)
  | ']' :: r => some (.closeArray, r)
  | '{' :: r => some (.openObject, r)
  | '}' :: r => some (.closeObject, r)
  | ',' :: r => some (.comma, r)
  | ':' :: r => some (.colon, r)
  | '"' :: r => (stringRest? r).map fun p => (.string p.1, p.2)
  | 'n' :: r => (Text.after? "ull".toList r).map (.value .null, ·)
  | 't' :: r => (Text.after? "rue".toList r).map (.value (.bool true), ·)
  | 'f' :: r => (Text.after? "alse".toList r).map (.value (.bool false), ·)
  | cs => (number? cs).map fun p => (.value (.number p.1), p.2)

/-- A container that is still open, with what it holds so far in reverse. -/
inductive Frame where
  | array (items : List Json)
  | object (members : List (List Char × Json)) (key : List Char)

/-- What may come next. -/
inductive State where
  /-- A value. -/
  | value (stack : List Frame)
  /-- The first item of an array, or its end. -/
  | firstItem (stack : List Frame)
  /-- The first member of an object, or its end. -/
  | firstMember (stack : List Frame)
  /-- The name of a member. -/
  | name (members : List (List Char × Json)) (stack : List Frame)
  /-- The colon after a name. -/
  | colon (members : List (List Char × Json)) (key : List Char) (stack : List Frame)
  /-- A comma in an array, or its end. -/
  | afterItem (items : List Json) (stack : List Frame)
  /-- A comma in an object, or its end. -/
  | afterMember (members : List (List Char × Json)) (stack : List Frame)
  /-- Nothing more. -/
  | done (v : Json)

/-- The state after a complete value. -/
def complete (v : Json) : List Frame → State
  | [] => .done v
  | .array items :: stack => .afterItem (v :: items) stack
  | .object members key :: stack => .afterMember ((key, v) :: members) stack

/-- The state after a token where a value may stand. -/
def startValue (stack : List Frame) : Token → Option State
  | .openArray => some (.firstItem stack)
  | .openObject => some (.firstMember stack)
  | .string raw => some (complete (.string raw) stack)
  | .value v => some (complete v stack)
  | _ => none

/-- The state after one more token. -/
def step : State → Token → Option State
  | .value stack, t => startValue stack t
  | .firstItem stack, .closeArray => some (complete (.array []) stack)
  | .firstItem stack, t => startValue (.array [] :: stack) t
  | .firstMember stack, .closeObject => some (complete (.object []) stack)
  | .firstMember stack, .string key => some (.colon [] key stack)
  | .name members stack, .string key => some (.colon members key stack)
  | .colon members key stack, .colon => some (.value (.object members key :: stack))
  | .afterItem items stack, .comma => some (.value (.array items :: stack))
  | .afterItem items stack, .closeArray => some (complete (.array items.reverse) stack)
  | .afterMember members stack, .comma => some (.name members stack)
  | .afterMember members stack, .closeObject => some (complete (.object members.reverse) stack)
  | _, _ => none

/-- Reads a text to its end. -/
def read (s : State) (cs : List Char) : Option State :=
  match cs with
  | [] => some s
  | c :: r =>
    if isSpace c then read s r
    else
      match token? (c :: r) with
      | none => none
      | some (t, rest) =>
        match step s t with
        | none => none
        | some s => if rest.length < (c :: r).length then read s rest else none
termination_by cs.length
decreasing_by all_goals simp_all

/-- The value that a text is. -/
def parse? (text : List Char) : Option Json :=
  match read (.value []) text with
  | some (.done v) => some v
  | _ => none

end ComputeKernel.Json
