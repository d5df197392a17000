import Abacus.Bytecode.Compile
import Abacus.Bytecode.Detect
import Abacus.Interpreter.Execute
import Abacus.Shell.Disk

/-!
Jobs are what the command line and the session hand out: to print something, to report a
failure, to write a compiled program, or to run one. Performing a job gives what it prints and
the report of its failure, if it fails.
-/

namespace Abacus.Shell

open Bytecode

inductive Job where
  | print (text : String)
  | complain (report : String)
  | save (name : String) (container : Container) (listed : Bool)
  | run (program : Program) (trace timed : Bool)

/-- What a job did. After a timed run the time it took is printed as well. -/
structure Outcome where
  printed : String := ""
  timed : Bool := false
  complaint? : Option String := none
deriving DecidableEq

def bold (report : String) : String := "\x1b[1m" ++ report ++ "\x1b[0m"

namespace Job

def compileTo (program : Program) (name : String) (listed : Bool) : Job :=
  match program.compile with
  | .ok container => .save name container listed
  | .error fault => .complain fault.message

def listCompiled : Except Fault Container → Job
  | .ok container => .print container.listing
  | .error fault => .complain fault.message

/-- Runs on, adding to what is printed: each traced statement with the variables after it, and
the variables at the end. -/
def drive (program : Program) : (rounds : Nat) → State → (printed : String) → Option Outcome
  | 0, _, _ => none
  | rounds + 1, state, printed =>
    match program.execute Program.roundCycles state with
    | (.running, after) => drive program rounds after printed
    | (.traced text, after) =>
      drive program rounds after (printed ++ text ++ "\n" ++ after.vars.render)
    | (.stopped, after) => some { printed := printed ++ after.vars.render }
    | (.failed fault, _) => some { printed, complaint? := some fault.message }

/-- The outcome of a job and the disk after it; none if a run is not over after `rounds`. -/
def perform (rounds : Nat) (disk : Disk) : Job → Option (Outcome × Disk)
  | .print text => some ({ printed := text }, disk)
  | .complain report => some ({ complaint? := some report }, disk)
  | .save name container listed =>
    match disk.write name container.encode with
    | .ok disk => some ({ printed := if listed then container.listing else "" }, disk)
    | .error refusal => some ({ complaint? := some refusal.message }, disk)
  | .run program trace timed =>
    match drive program rounds ((State.start program).setTrace trace) "" with
    | some outcome => some ({ outcome with timed := timed && outcome.complaint?.isNone }, disk)
    | none => none

end Job

end Abacus.Shell
