import ComputeKernel.Layout
import ComputeKernel.Text.Blank
import ComputeKernel.Text.Cut
import ComputeKernel.Text.Word

/-!
# Uniforms of a body

A kernel body reads a uniform by writing its name after the marker `this.uniform.`, and a member
of it after one more dot. The uniforms of a body are the names that it reads, in the order in
which they first appear. The scalar of a uniform is found where a member is read in a statement
that shows a type: the type that a `var`, `let` or `const` declares, or the word that the
statement starts with. The last such statement decides, and without one the scalar is `u32`.
-/

namespace ComputeKernel.Body

open Text

/-- What stands before the name of a uniform. -/
def uniformMarker : List Char := "this.uniform.".toList

/-- A place where a uniform is read: its name, the member if one is named, and the text of the
statement before it. -/
structure UniformAccess where
  name : List Char
  hasMember : Bool
  statement : List Char
  deriving DecidableEq, Repr

/-- The access at the front of a text: the name of the uniform and whether a member is named. -/
def uniformAccess? : Recogniser (List Char × Bool) := fun _ cs =>
  match after? uniformMarker cs with
  | none => none
  | some r =>
    match identifier? r with
    | none => none
    | some (name, rest) =>
      match rest with
      | '.' :: r =>
        match identifier? r with
        | some (_, rest) => some ((name, true), rest)
        | none => some ((name, false), rest)
      | _ => some ((name, false), rest)

/-- Whether a statement ends at a character. -/
def endsStatement (c : Char) : Bool := c == ';' || c == '{' || c == '}'

/-- The accesses in a cut text, when `statement` is the text of the statement so far. -/
def accessesFrom (statement : List Char) : List (Piece (List Char × Bool)) → List UniformAccess
  | [] => []
  | .char c :: r => accessesFrom (if endsStatement c then [] else statement ++ [c]) r
  | .found span (name, hasMember) :: r =>
    ⟨name, hasMember, statement⟩ :: accessesFrom (statement ++ span) r

/-- The places where a text reads uniforms, in order. -/
def uniformAccesses (text : List Char) : List UniformAccess :=
  accessesFrom [] (cut uniformAccess? none text)

/-- The text between the first `<` and the last `>`, if they stand in this order. -/
def typeArgument? (word : List Char) : Option (List Char) :=
  match word.dropWhile (· != '<') with
  | [] => none
  | _ :: r =>
    match r.reverse.dropWhile (· != '>') with
    | [] => none
    | _ :: inner => some inner.reverse

theorem typeArgument?_shorter {word inner : List Char} (h : typeArgument? word = some inner) :
    inner.length < word.length := by
  rw [typeArgument?] at h
  have hw := (List.dropWhile_suffix (l := word) (· != '<')).length_le
  split at h
  · simp at h
  · rename_i c r hr
    have hv := (List.dropWhile_suffix (l := r.reverse) (· != '>')).length_le
    split at h
    · simp at h
    · rename_i d i hi
      simp only [Option.some.injEq] at h
      rw [hr] at hw
      rw [hi] at hv
      rw [← h]
      simp only [List.length_cons, List.length_reverse] at hv hw ⊢
      omega

set_option linter.unusedVariables false in
/-- The innermost type argument of a type. -/
def innermostType (word : List Char) : List Char :=
  match h : typeArgument? word with
  | some inner => innermostType inner
  | none => word
termination_by word.length
decreasing_by exact typeArgument?_shorter h

/-- The scalar of a vector type: the innermost type argument decides, else the name itself. -/
def vectorScalar? (word : List Char) : Option Scalar :=
  let word := innermostType (compact word)
  match String.ofList word with
  | "uint" | "u32" => some .u32
  | "int" | "i32" => some .i32
  | "float" | "f32" | "double" | "f64" => some .f32
  | _ =>
    if (after? "uvec".toList word).isSome then some .u32
    else if (after? "ivec".toList word).isSome then some .i32
    else if (after? "dvec".toList word).isSome then some .f32
    else
      match after? "vec".toList word with
      | none => none
      | some rest =>
        match rest.getLast? with
        | some 'u' => some .u32
        | some 'i' => some .i32
        | some 'f' => some .f32
        | some c => if c.isDigit then some .f32 else none
        | none => none

/-- Whether a word ends at a character. -/
def endsWord (c : Char) : Bool := isBlank c || c == ':' || c == '=' || c == '(' || c == ','

/-- The type that a statement shows before an access in it. -/
def statementType? (statement : List Char) : Option (List Char) :=
  let stmt := trimStart statement
  let word := stmt.takeWhile (!endsWord ·)
  if word == "var".toList || word == "let".toList || word == "const".toList then
    match stmt.dropWhile (· != ':') with
    | [] => none
    | _ :: r => some (trim (r.takeWhile (· != '=')))
  else some word

/-- The scalar that an access shows, if it names a member in a statement with a known type. -/
def UniformAccess.scalar? (a : UniformAccess) : Option Scalar :=
  if a.hasMember then (statementType? a.statement).bind vectorScalar? else none

/-- Adds what an access shows to the slots found so far. -/
def addAccess (slots : List UniformSlot) (a : UniformAccess) : List UniformSlot :=
  let name := String.ofList a.name
  if slots.any (·.name == name) then
    match a.scalar? with
    | some kind => slots.map fun s => if s.name == name then { s with kind } else s
    | none => slots
  else slots ++ [⟨name, a.scalar?.getD .u32, slots.length⟩]

/-- The uniforms that a text reads, in the order of their first access. -/
def discoverUniforms (text : List Char) : List UniformSlot :=
  (uniformAccesses text).foldl addAccess []

/-- The text with its uniform markers taken out. -/
def dropMarkers (text : List Char) : List Char :=
  replaceAll (fun _ cs => (after? uniformMarker cs).map ((), ·)) (fun _ => some []) text

end ComputeKernel.Body
