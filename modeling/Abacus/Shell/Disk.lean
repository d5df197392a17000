import Abacus.Text.Utf8

/-!
The files that a command line or a session works on: a tree of files and directories, found by
path names that start at the root or at the working directory. A refused access says why.
-/

namespace Abacus.Shell

inductive Refusal where
  | missing
  | notDirectory
  | isDirectory
  | nameTooLong
  | nameHasNul
  | notText
deriving DecidableEq

def Refusal.message : Refusal → String
  | .missing => "No such file or directory (os error 2)"
  | .notDirectory => "Not a directory (os error 20)"
  | .isDirectory => "Is a directory (os error 21)"
  | .nameTooLong => "File name too long (os error 36)"
  | .nameHasNul => "file name contained an unexpected NUL byte"
  | .notText => "stream did not contain valid UTF-8"

inductive Node where
  | file (bytes : List UInt8)
  | directory
deriving DecidableEq

/-- Names from the root down. -/
abbrev Path := List String

/-- Files and directories by path. A path name that starts with no slash starts at `home`, the
working directory. -/
structure Disk where
  home : Path := []
  nodes : List (Path × Node) := []
deriving DecidableEq

namespace Disk

/-- What is at a path. The working directory and all that hold it are always there. -/
def node? (disk : Disk) (path : Path) : Option Node :=
  if path.isPrefixOf disk.home then some .directory else disk.nodes.lookup path

def put (disk : Disk) (path : Path) (node : Node) : Disk :=
  { disk with nodes := (path, node) :: disk.nodes.filter (·.1 != path) }

/-- Goes from a directory to something in it, which may not exist. The root is in itself. -/
def enter (disk : Disk) (path : Path) (name : String) : Except Refusal Path :=
  match disk.node? path with
  | none => .error .missing
  | some (.file _) => .error .notDirectory
  | some .directory =>
    if name = "." then .ok path
    else if name = ".." then .ok path.dropLast
    else if 255 < name.utf8ByteSize then .error .nameTooLong
    else .ok (path ++ [name])

def steps (name : String) : List String :=
  ((name.toList.splitOn '/').filter fun step => !step.isEmpty).map String.ofList

/-- Whether a path name can only mean a directory. -/
def endsInSlash (name : String) : Bool := name.toList.getLast? == some '/'

def follow (disk : Disk) (name : String) (steps : List String) : Except Refusal Path :=
  if '\x00' ∈ name.toList then .error .nameHasNul
  else if name = "" then .error .missing
  else if 4095 < name.utf8ByteSize then .error .nameTooLong
  else steps.foldlM disk.enter (if name.toList.head? = some '/' then [] else disk.home)

def read (disk : Disk) (name : String) : Except Refusal (List UInt8) :=
  match disk.follow name (steps name) with
  | .error refusal => .error refusal
  | .ok path =>
    match disk.node? path with
    | none => .error .missing
    | some .directory => .error .isDirectory
    | some (.file bytes) => if endsInSlash name then .error .notDirectory else .ok bytes

/-- The steps to where a file is to be written. A name that ends in a slash leads no further
than the directory around it: no file can be made there, whatever the last step finds. -/
def stepsToWrite (name : String) : List String :=
  if endsInSlash name then (steps name).dropLast ++ ["."] else steps name

def write (disk : Disk) (name : String) (bytes : List UInt8) : Except Refusal Disk :=
  match disk.follow name (stepsToWrite name) with
  | .error refusal => .error refusal
  | .ok path =>
    match disk.node? path with
    | some .directory => .error .isDirectory
    | _ => .ok (disk.put path (.file bytes))

def files (disk : Disk) : List (String × List UInt8) :=
  disk.nodes.filterMap fun
    | (path, .file bytes) =>
      if path.dropLast = disk.home then path.getLast?.map fun name => (name, bytes) else none
    | (_, .directory) => none

end Disk

end Abacus.Shell
