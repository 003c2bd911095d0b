import ComputeKernel.Dialect.Basic

/-!
# Command lines

A command line is flags, options with values, and a file, all of which belong to a command. An
option is written `--name value`, `--name=value`, `-n value` or `-nvalue`, and several short flags
may stand together. Whatever follows `--` is no flag and no option. No option and no flag may be
given twice, and a value may not look like an option unless it is joined to the option's name.
-/

namespace ComputeKernel.CommandLine

/-- What can be switched on. -/
inductive Flag where
  | verbose
  | json
  | help
  | version
  deriving DecidableEq, Repr

/-- What can be given a value. -/
inductive Setting where
  | params
  | config
  | target
  | output
  deriving DecidableEq, Repr

/-- A flag or an option, as it is named on a command line. -/
inductive Switch where
  | flag (f : Flag)
  | setting (s : Setting)
  deriving DecidableEq, Repr

namespace Switch

def long : Switch → String
  | flag .verbose => "verbose"
  | flag .json => "json"
  | flag .help => "help"
  | flag .version => "version"
  | setting .params => "params"
  | setting .config => "config"
  | setting .target => "target"
  | setting .output => "output"

def short? : Switch → Option Char
  | flag .verbose => some 'v'
  | flag .json => none
  | flag .help => some 'h'
  | flag .version => some 'V'
  | setting .params => some 'p'
  | setting .config => some 'c'
  | setting .target => some 't'
  | setting .output => some 'o'

end Switch

/-- What a value has to be like: parameters are any text, a target is the name of a dialect, and a
path is not empty. -/
def Setting.accepts : Setting → String → Bool
  | .params, _ => true
  | .target, v => (Dialect.ofName? v).isSome
  | .config, v | .output, v => !v.isEmpty

/-- What may stand on a command line. -/
structure Grammar where
  switches : List Switch
  takesFile : Bool
  deriving DecidableEq, Repr

namespace Grammar

def ofLong? (g : Grammar) (name : String) : Option Switch := g.switches.find? (·.long == name)

def ofShort? (g : Grammar) (c : Char) : Option Switch := g.switches.find? (·.short? == some c)

end Grammar

/-- Why a command line is not carried out. -/
inductive Stop where
  | misuse
  | help
  | version
  deriving DecidableEq, Repr

/-- What was found on a command line. -/
structure Found where
  flags : List Flag := []
  settings : List (Setting × String) := []
  file : Option String := none
  deriving DecidableEq, Repr

namespace Found

/-- Switches a flag on. Help and version are asked for at once. -/
def add (x : Found) (f : Flag) : Except Stop Found :=
  match f with
  | .help => .error .help
  | .version => .error .version
  | _ => if x.flags.contains f then .error .misuse else .ok { x with flags := f :: x.flags }

def get? (x : Found) (s : Setting) : Option String :=
  (x.settings.find? (·.1 == s)).map (·.2)

/-- Gives a value to an option. -/
def set (x : Found) (s : Setting) (value : String) : Except Stop Found :=
  if (x.get? s).isSome || !s.accepts value then .error .misuse
  else .ok { x with settings := (s, value) :: x.settings }

/-- Names the file. -/
def addFile (g : Grammar) (x : Found) (path : String) : Except Stop Found :=
  if !g.takesFile || x.file.isSome || path.isEmpty then .error .misuse
  else .ok { x with file := some path }

end Found

/-- What one word of a command line is. -/
inductive Word where
  /-- The mark after which there are no flags and no options. -/
  | mark
  | long (name : String) (value : Option String)
  | short (letters : List Char)
  | plain (text : String)
  deriving DecidableEq, Repr

namespace Word

/-- Tells what a word is. A single dash is nothing special. -/
def ofString (s : String) : Word :=
  match s.toList with
  | ['-', '-'] => mark
  | '-' :: '-' :: r =>
    match r.dropWhile (· != '=') with
    | _ :: value => long (String.ofList (r.takeWhile (· != '='))) (some (String.ofList value))
    | [] => long (String.ofList r) none
  | '-' :: c :: r => short (c :: r)
  | _ => plain s

end Word

/-- The flags that stand together behind one dash. The last letter may be an option, whose value
is what follows it, with or without an equals sign, or is still to come. -/
def scanShort (g : Grammar) : Found → List Char → Except Stop (Found × Option Setting)
  | x, [] => .ok (x, none)
  | x, c :: r =>
    match g.ofShort? c with
    | none => .error .misuse
    | some (.flag f) =>
      match x.add f with
      | .ok x => scanShort g x r
      | .error s => .error s
    | some (.setting s) =>
      match r with
      | [] => .ok (x, some s)
      | '=' :: value => (x.set s (String.ofList value)).map (·, none)
      | value => (x.set s (String.ofList value)).map (·, none)

/-- Takes the words for files. -/
def scanFiles (g : Grammar) : Found → List String → Except Stop Found
  | x, [] => .ok x
  | x, path :: r =>
    match x.addFile g path with
    | .ok x => scanFiles g x r
    | .error s => .error s

/-- Takes a word for what it is. The result names the option whose value is still to come. -/
def scanWord (g : Grammar) (x : Found) : Word → Except Stop (Found × Option Setting)
  | .mark => .ok (x, none)
  | .plain path => (x.addFile g path).map (·, none)
  | .short letters => scanShort g x letters
  | .long name value =>
    match g.ofLong? name, value with
    | some (.flag f), none => (x.add f).map (·, none)
    | some (.setting s), some value => (x.set s value).map (·, none)
    | some (.setting s), none => .ok (x, some s)
    | _, _ => .error .misuse

/-- Takes the words of a command line one after the other. -/
def scan (g : Grammar) : (x : Found) → (awaited : Option Setting) → List String → Except Stop Found
  | x, none, [] => .ok x
  | _, some _, [] => .error .misuse
  | x, none, w :: r =>
    match Word.ofString w with
    | .mark => scanFiles g x r
    | word =>
      match scanWord g x word with
      | .ok (x, awaited) => scan g x awaited r
      | .error s => .error s
  | x, some s, w :: r =>
    match Word.ofString w with
    | .plain value =>
      match x.set s value with
      | .ok x => scan g x none r
      | .error s => .error s
    | _ => .error .misuse

end ComputeKernel.CommandLine
