/-!
The arguments of the command line: an optional file, the flags `-t`/`--trace`, `--time` and
`-l`/`--list`, and `-c`/`--compile` with the file to write. Nothing may be given twice. Short
flags can be grouped, `--` ends the options, and help and version are answered where they stand.
-/

namespace Abacus.Shell

structure Invocation where
  file? : Option String := none
  trace : Bool := false
  timed : Bool := false
  out? : Option String := none
  list : Bool := false
deriving DecidableEq

inductive Request where
  | work (invocation : Invocation)
  | help
  | version
  | refused
deriving DecidableEq

namespace Invocation

def setTrace (invocation : Invocation) : Option Invocation :=
  if invocation.trace then none else some { invocation with trace := true }

def setTimed (invocation : Invocation) : Option Invocation :=
  if invocation.timed then none else some { invocation with timed := true }

def setList (invocation : Invocation) : Option Invocation :=
  if invocation.list then none else some { invocation with list := true }

def setOut (invocation : Invocation) (name : String) : Option Invocation :=
  if invocation.out?.isSome then none else some { invocation with out? := some name }

def setFile (invocation : Invocation) (name : String) : Option Invocation :=
  if invocation.file?.isSome then none else some { invocation with file? := some name }

/-- How an argument with options ends: read whole, in want of a value, or answered at once. -/
inductive Progress where
  | read (invocation : Invocation)
  | wantsOut (invocation : Invocation)
  | answered (request : Request)

def Progress.ofFlag : Option Invocation → Progress
  | some invocation => .read invocation
  | none => .answered .refused

/-- A group of short flags, without its dash. -/
def readShort : List Char → Invocation → Progress
  | [], invocation => .read invocation
  | 't' :: rest, invocation =>
    match invocation.setTrace with
    | some invocation => readShort rest invocation
    | none => .answered .refused
  | 'l' :: rest, invocation =>
    match invocation.setList with
    | some invocation => readShort rest invocation
    | none => .answered .refused
  | 'c' :: [], invocation => .wantsOut invocation
  | 'c' :: '=' :: value, invocation => .ofFlag (invocation.setOut (String.ofList value))
  | 'c' :: value, invocation => .ofFlag (invocation.setOut (String.ofList value))
  | 'h' :: _, _ => .answered .help
  | 'V' :: _, _ => .answered .version
  | _ :: _, _ => .answered .refused

/-- A long option, without its dashes: its name and the value after an equals sign. -/
def readLong (option : List Char) (invocation : Invocation) : Progress :=
  let name := String.ofList (option.takeWhile (· != '='))
  match name, option.dropWhile (· != '=') with
  | "trace", [] => .ofFlag invocation.setTrace
  | "time", [] => .ofFlag invocation.setTimed
  | "list", [] => .ofFlag invocation.setList
  | "compile", [] => .wantsOut invocation
  | "compile", _ :: value => .ofFlag (invocation.setOut (String.ofList value))
  | "help", [] => .answered .help
  | "version", [] => .answered .version
  | _, _ => .answered .refused

/-- One argument before any `--`. -/
def readArgument (argument : String) (invocation : Invocation) : Progress :=
  match argument.toList with
  | '-' :: '-' :: option => readLong option invocation
  | '-' :: flag :: flags => readShort (flag :: flags) invocation
  | _ => .ofFlag (invocation.setFile argument)

def isValue (argument : String) : Bool :=
  match argument.toList with
  | '-' :: _ :: _ => false
  | _ => true

def readFiles : List String → Invocation → Request
  | [], invocation => .work invocation
  | name :: rest, invocation =>
    match invocation.setFile name with
    | some invocation => readFiles rest invocation
    | none => .refused

def readFrom : List String → Invocation → Request
  | [], invocation => .work invocation
  | argument :: rest, invocation =>
    if argument = "--" then readFiles rest invocation
    else
      match readArgument argument invocation with
      | .read invocation => readFrom rest invocation
      | .answered request => request
      | .wantsOut invocation =>
        match rest with
        | [] => .refused
        | value :: rest =>
          if isValue value then
            match invocation.setOut value with
            | some invocation => readFrom rest invocation
            | none => .refused
          else .refused

def read (arguments : List String) : Request := readFrom arguments {}

end Invocation

end Abacus.Shell
