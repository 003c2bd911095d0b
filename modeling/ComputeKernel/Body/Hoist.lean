import ComputeKernel.Dialect.Phrase
import ComputeKernel.Text.Bracket
import ComputeKernel.Text.Cut
import ComputeKernel.Text.Word

/-!
# Hoisting

Some pieces of a kernel body belong outside the function that holds the body: variables shared by
a workgroup, helper functions, and constants. Each of the three functions here takes its pieces
out of a text and answers with the text that remains and the pieces, in order.
-/

namespace ComputeKernel.Body

open Text

/-- The declaration of shared memory at the front of a text. -/
def sharedVariable? (d : Dialect) : Recogniser Unit := fun before cs =>
  if !atWordStart before then none
  else
    match opening? d cs with
    | none => none
    | some r =>
      match r.dropWhile (· != ';') with
      | ';' :: rest => some ((), rest)
      | _ => none
where
  /-- What follows the words that open a declaration of shared memory. -/
  opening? : Dialect → List Char → Option (List Char)
    | .wgsl, cs =>
      match (after? "var".toList cs).map trimStart with
      | some ('<' :: r) =>
        match (after? "workgroup".toList (trimStart r)).map trimStart with
        | some ('>' :: r) => some r
        | _ => none
      | _ => none
    | .glsl, cs =>
      match after? "shared".toList cs with
      | some r => if r.head?.any isBlank then some r else none
      | none => none

/-- Takes the declarations of shared memory out of a text. -/
def hoistShared (d : Dialect) (text : List Char) : List Char × List (List Char) :=
  (replaceAll (sharedVariable? d) (fun _ => some []) text, spans (sharedVariable? d) text)

/-- The words `function NAME (` at the front of a text: the name, and what follows them. -/
def helperOpening? : Recogniser (List Char) := fun before cs =>
  if !atWordStart before then none
  else
    match after? "function".toList cs with
    | none => none
    | some r =>
      if !r.head?.any isBlank then none
      else
        match identifier? (trimStart r) with
        | none => none
        | some (name, r) =>
          match trimStart r with
          | '(' :: rest => some (name, rest)
          | _ => none

/-- The result type between the arguments and the block of a helper. -/
def helperResult? (between : List Char) : Option (List Char) :=
  match after? "->".toList (trim between) with
  | some r => if (trim r).isEmpty then none else some (trim r)
  | none => none

/-- The rest of a helper after its opening, as the function it stands for. -/
def helper? (d : Dialect) (name cs : List Char) : Option (List Char × List Char) :=
  match splitClose 0 cs with
  | none => none
  | some (args, r) =>
    match r.dropWhile (· != '{') with
    | [] => none
    | brace :: block =>
      match splitClose 0 block with
      | none => none
      | some (_, rest) =>
        let head := d.functionHead name (trim args) (helperResult? (r.takeWhile (· != '{')))
        some (head ++ [' '] ++ consumed (brace :: block) rest, rest)

/-- Takes the helpers out of a text that stands after the character `before`. The character before
a helper then stands before what followed it. A helper that is not complete ends the search. -/
def hoistHelpersFrom (d : Dialect) (before : Option Char) (cs : List Char) :
    List Char × List (List Char) :=
  match cs with
  | [] => ([], [])
  | c :: r =>
    match helperOpening? before (c :: r) with
    | none =>
      let p := hoistHelpersFrom d (some c) r
      (c :: p.1, p.2)
    | some (name, inner) =>
      match helper? d name inner with
      | none => (c :: r, [])
      | some (helper, rest) =>
        if rest.length < (c :: r).length then
          let p := hoistHelpersFrom d before rest
          (p.1, helper :: p.2)
        else (c :: r, [])
termination_by cs.length
decreasing_by all_goals simp_all

/-- Takes the helpers out of a text. -/
def hoistHelpers (d : Dialect) (text : List Char) : List Char × List (List Char) :=
  hoistHelpersFrom d none text

/-- Whether the word `const` starts a statement here. -/
def atConst (before : Option Char) (cs : List Char) : Bool :=
  match after? "const".toList cs with
  | some r => !before.any isIdent && r.head?.any isBlank
  | none => false

/-- Takes the constants at level 0 out of a text that stands at `level` after `before`. -/
def hoistConstantsFrom (level : Int) (before : Option Char) (cs : List Char) :
    List Char × List (List Char) :=
  match cs with
  | [] => ([], [])
  | c :: r =>
    if isOpen c then
      let p := hoistConstantsFrom (level + 1) (some c) r
      (c :: p.1, p.2)
    else if isClose c then
      let p := hoistConstantsFrom (level - 1) (some c) r
      (c :: p.1, p.2)
    else if level == 0 && atConst before (c :: r) then
      match splitStatement 0 (c :: r) with
      | some (stmt, rest) =>
        if rest.length < (c :: r).length then
          let p := hoistConstantsFrom level stmt.getLast? rest
          (p.1, stmt :: p.2)
        else (c :: r, [])
      | none =>
        let p := hoistConstantsFrom level (some c) r
        (c :: p.1, p.2)
    else
      let p := hoistConstantsFrom level (some c) r
      (c :: p.1, p.2)
termination_by cs.length
decreasing_by all_goals simp_all

/-- Takes the constants at level 0 out of a text. -/
def hoistConstants (text : List Char) : List Char × List (List Char) :=
  hoistConstantsFrom 0 none text

end ComputeKernel.Body
