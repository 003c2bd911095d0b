import ComputeKernel.NameMap

/-!
# Files

The files of a working folder and the paths that lead to them. A path is followed name by name
from the working folder, where an empty name and a single dot stay and two dots go up; so every
name but the last has to be that of a folder. Nothing is known about what lies outside of the
working folder. Text is read as UTF-8.
-/

namespace ComputeKernel.CommandLine

/-- Why a file cannot be read or written. -/
inductive FileError where
  | missing
  | notDirectory
  | isDirectory
  | nameTooLong
  | notText
  | other (reason : String)
  deriving DecidableEq, Repr

def FileError.message : FileError → String
  | missing => "No such file or directory (os error 2)"
  | notDirectory => "Not a directory (os error 20)"
  | isDirectory => "Is a directory (os error 21)"
  | nameTooLong => "File name too long (os error 36)"
  | notText => "stream did not contain valid UTF-8"
  | other reason => reason

/-- The text that the bytes of a file stand for. -/
def decodeText (bytes : List UInt8) : Except FileError String :=
  match String.fromUTF8? ⟨bytes.toArray⟩ with
  | some s => .ok s
  | none => .error .notText

/-- The bytes that a name and a path may have. -/
def maxNameBytes : Nat := 255

def maxPathBytes : Nat := 4095

/-- Whether a name stays where it is. -/
def staysHere (name : String) : Bool := name == "" || name == "."

/-- Where a path leads. What lies in the working folder is given by the names on the way to it. -/
inductive Place where
  | folder (names : List String)
  | file (names : List String)
  /-- A folder outside of the working folder. -/
  | outside
  deriving DecidableEq, Repr

/-- Files with their bytes, by the names on the way to them. -/
structure Folder where
  files : List (List String × List UInt8) := []
  deriving DecidableEq, Repr

namespace Folder

/-- The folder with files of some paths. -/
def ofFiles (files : List (String × List UInt8)) : Folder :=
  ⟨files.map fun f => ((f.1.splitOn "/").filter (!staysHere ·), f.2)⟩

def find? (f : Folder) (names : List String) : Option (List UInt8) :=
  (f.files.find? (·.1 == names)).map (·.2)

/-- Whether names lead to the folder itself or to one inside it. -/
def isDirectory (f : Folder) (names : List String) : Bool :=
  names.isEmpty || f.files.any fun e => names.isPrefixOf e.1 && e.1 != names

section Paths

variable (f : Folder)

/-- What has a name in the working folder. -/
def lookup (names : List String) : Except FileError Place :=
  if (f.find? names).isSome then .ok (.file names)
  else if f.isDirectory names then .ok (.folder names)
  else .error .missing

/-- Follows one name of a path. -/
def step (name : String) : Place → Except FileError Place
  | .file _ => .error .notDirectory
  | .folder names =>
    if staysHere name then .ok (.folder names)
    else if name == ".." then .ok (if names.isEmpty then .outside else .folder names.dropLast)
    else if maxNameBytes < name.utf8ByteSize then .error .nameTooLong
    else f.lookup (names ++ [name])
  | .outside =>
    if staysHere name || name == ".." then .ok .outside
    else if maxNameBytes < name.utf8ByteSize then .error .nameTooLong
    else .error .missing

/-- Follows the names of a path. -/
def walk : Place → List String → Except FileError Place
  | p, [] => .ok p
  | p, name :: r =>
    match f.step name p with
    | .ok p => walk p r
    | .error e => .error e

/-- Follows names from where a path starts. -/
def walkFrom (path : String) (names : List String) : Except FileError Place :=
  if maxPathBytes < path.utf8ByteSize then .error .nameTooLong
  else f.walk (if path.startsWith "/" then .outside else .folder []) names

end Paths

/-- The bytes of a file. -/
def read (f : Folder) (path : String) : Except FileError (List UInt8) :=
  match f.walkFrom path (path.splitOn "/") with
  | .ok (.file names) =>
    match f.find? names with
    | some bytes => .ok bytes
    | none => .error .missing
  | .ok _ => .error .isDirectory
  | .error e => .error e

/-- The folder with bytes in the file that names lead to. -/
def put (f : Folder) (names : List String) (bytes : List UInt8) : Folder :=
  ⟨(names, bytes) :: f.files.filter (·.1 != names)⟩

/-- The folder with a file of some name written at a place. What is written outside leaves the
folder as it is. -/
def writeAt (f : Folder) (place : Place) (name : String) (bytes : List UInt8) :
    Except FileError Folder :=
  match f.step name place, place with
  | .ok (.file names), _ => .ok (f.put names bytes)
  | .ok _, _ => .error .isDirectory
  | .error .missing, .folder names => .ok (f.put (names ++ [name]) bytes)
  | .error .missing, _ => .ok f
  | .error e, _ => .error e

/-- The folder with a file written. Folders on the way to it have to be there, and a path that ends
in a slash is none of a file. -/
def write (f : Folder) (path : String) (bytes : List UInt8) : Except FileError Folder :=
  match (path.splitOn "/").reverse.dropWhile (· == "") with
  | [] => .error .isDirectory
  | name :: way =>
    match f.walkFrom path way.reverse with
    | .ok (.file _) => .error .notDirectory
    | .ok place =>
      if path.endsWith "/" then .error .isDirectory else f.writeAt place name bytes
    | .error e => .error e

end Folder

end ComputeKernel.CommandLine
