import ComputeKernel.Declaration
import ComputeKernel.NameMap

/-!
# Declarations in a body

A kernel body may declare the resource type of a parameter by a statement `var NAME: TYPE;`. Such
statements are cut out of the body, and what they declare is a hint for the parameter; the last
hint for a name counts. Statements of the same form about other names stay where they are.
-/

namespace ComputeKernel.Body

open Text

/-- The type between the colon and the semicolon of a declaration, which `content` is all of. Only
the last of nothing but blanks is taken for a type. -/
def declaredType (content : List Char) : List Char :=
  if content.all isBlank then content.getLast?.toList else trim content

/-- The statement `var NAME: TYPE;` at the front of a text, as its name and its type. -/
def declaration? : Recogniser (List Char × List Char) := fun before cs =>
  if !atWordStart before then none
  else
    match after? "var".toList cs with
    | none => none
    | some r =>
      if !r.head?.any isBlank then none
      else
        match identifier? (trimStart r) with
        | none => none
        | some (name, r) =>
          match trimStart r with
          | ':' :: r =>
            let content := r.takeWhile fun c => c != ';' && c != '='
            match r.dropWhile fun c => c != ';' && c != '=' with
            | ';' :: rest =>
              if content.isEmpty then none else some ((name, declaredType content), rest)
            | _ => none
          | _ => none

/-- The declarations of parameters in a body, in order, with their types as written. -/
def paramDeclarations (names : List String) (body : List Char) : List (String × List Char) :=
  ((findAll declaration? body).map fun d => (String.ofList d.1, d.2)).filter fun d =>
    names.contains d.1

/-- The body without its declarations of parameters. -/
def withoutDeclarations (names : List String) (body : List Char) : List Char :=
  replaceAll declaration?
    (fun d => if names.contains (String.ofList d.1) then some [] else none) body

/-- What the declarations say, in order, or the first that says nothing. -/
def declaredHints (decls : List (String × List Char)) :
    Except ConfigurationFault (List (String × Declaration)) :=
  decls.mapM fun d =>
    match Declaration.ofShaderType? d.2 with
    | some decl => .ok (d.1, decl)
    | none => .error (.unbindableType d.1 (String.ofList d.2))

/-- Cuts the declarations of parameters out of a body: the text that remains, and the hints. -/
def extractDeclarations (names : List String) (body : List Char) :
    Except ConfigurationFault (List Char × NameMap Declaration) :=
  (declaredHints (paramDeclarations names body)).map fun hints =>
    (withoutDeclarations names body, NameMap.ofList hints)

end ComputeKernel.Body
