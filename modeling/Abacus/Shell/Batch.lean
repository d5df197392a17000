import Abacus.Shell.Invocation
import Abacus.Shell.Job

/-!
The command line on one file. A compiled file is listed whatever the flags; a source text is
compiled, listed or run. A failure is reported in bold on the error output with exit code 1, and
arguments that cannot be read give exit code 2.
-/

namespace Abacus.Shell

open Bytecode

def Job.ofFile (invocation : Invocation) (bytes : List UInt8) : Job :=
  if isCompiled bytes then .listCompiled (Container.decode bytes)
  else
    match Text.ofUtf8? bytes with
    | none => .complain Refusal.notText.message
    | some source =>
      let program := Program.ofSource source
      match invocation.out? with
      | some name => .compileTo program name invocation.list
      | none =>
        if invocation.list then .listCompiled program.compile
        else .run program invocation.trace invocation.timed

def Job.ofRead (invocation : Invocation) : Except Refusal (List UInt8) → Job
  | .ok bytes => .ofFile invocation bytes
  | .error refusal => .complain refusal.message

structure Report where
  exit : Nat
  stdout : String := ""
  stderr : String := ""
deriving DecidableEq

/-- The report of an outcome; `millis` is the text of the time that a timed run took. -/
def Outcome.report (millis : String) (outcome : Outcome) : Report :=
  let stdout := outcome.printed ++ if outcome.timed then millis ++ " ms\n" else ""
  match outcome.complaint? with
  | none => { exit := 0, stdout }
  | some complaint => { exit := 1, stdout, stderr := bold complaint ++ "\n" }

/-- Runs a command line on a disk. Help and version texts are left to the terminal, and so is the
session that starts when no file is given. -/
def batch (rounds : Nat) (millis : String) (arguments : List String) (disk : Disk) :
    Option (Report × Disk) :=
  match Invocation.read arguments with
  | .refused => some ({ exit := 2 }, disk)
  | .help | .version => some ({ exit := 0 }, disk)
  | .work invocation =>
    match invocation.file? with
    | none => some ({ exit := 0 }, disk)
    | some name =>
      match (Job.ofRead invocation (disk.read name)).perform rounds disk with
      | some (outcome, disk) => some (outcome.report millis, disk)
      | none => none

end Abacus.Shell
