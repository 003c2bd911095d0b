import ComputeKernel.Text.Cut

/-!
# Comments

A block comment runs from `/*` to the next `*/` and counts as one blank; a line comment runs from
`//` to the end of its line and counts as nothing. A block comment that is never closed is no
comment.
-/

namespace ComputeKernel.Body

inductive Comment where
  | block
  | line
  deriving DecidableEq, Repr

/-- What follows the next `*/`. -/
def afterBlock? : List Char → Option (List Char)
  | '*' :: '/' :: r => some r
  | _ :: r => afterBlock? r
  | [] => none

/-- The comment at the front of a text, and what follows it. -/
def comment? : Text.Recogniser Comment
  | _, '/' :: '*' :: r => (afterBlock? r).map (.block, ·)
  | _, '/' :: '/' :: r => some (.line, r.dropWhile (· != '\n'))
  | _, _ => none

/-- What stands for a comment once it is stripped. -/
def Comment.trace : Comment → List Char
  | block => [' ']
  | line => []

/-- The text without its comments. -/
def stripComments (text : List Char) : List Char :=
  Text.replaceAll comment? (fun c => some c.trace) text

end ComputeKernel.Body
