import Abacus.Shell.Job

/-!
The interactive session. Lines that are not commands are added to a source text, which the
commands run, list, compile and clear. A failure is reported in bold and the session goes on.
-/

namespace Abacus.Shell

inductive Command where
  | run
  | list
  | new
  | trace
  | compile (name? : Option String)
deriving DecidableEq

/-- The command of a line: its first word, whatever the case of its ASCII letters. -/
def Command.ofLine? (line : String) : Option Command :=
  match Text.words line.toList with
  | [] => none
  | first :: rest =>
    match String.ofList (first.map Char.toUpper) with
    | "RUN" => some .run
    | "LIST" => some .list
    | "NEW" => some .new
    | "TRACE" => some .trace
    | "COMPILE" => some (.compile (rest.head?.map String.ofList))
    | _ => none

structure Session where
  source : String := ""
  trace : Bool := false
deriving DecidableEq

namespace Session

def obey (session : Session) : Command → Job × Session
  | .run => (.run (Program.ofSource session.source) session.trace false, session)
  | .list => (.print session.source, session)
  | .new => (.print "", { session with source := "" })
  | .trace =>
    let trace := !session.trace
    (.print (if trace then "TRACE ON\n" else "TRACE OFF\n"), { session with trace })
  | .compile (some name) => (.compileTo (Program.ofSource session.source) name false, session)
  | .compile none => (.print "COMPILE needs a file name\n", session)

def respond (session : Session) (line : String) : Job × Session :=
  match Command.ofLine? line with
  | some command => session.obey command
  | none => (.print "", { session with source := session.source ++ line ++ "\n" })

end Session

def Outcome.shown (outcome : Outcome) : String :=
  match outcome.complaint? with
  | none => outcome.printed
  | some complaint => outcome.printed ++ bold complaint ++ "\n"

namespace Session

/-- The texts shown in response to each line, appended to `shown`, and the disk and session left.
There is no result if a run is not over after `rounds`. -/
def replay (rounds : Nat) : List String → Session → Disk → (shown : Array String) →
    Option (Array String × Session × Disk)
  | [], session, disk, shown => some (shown, session, disk)
  | line :: rest, session, disk, shown =>
    let (job, session) := session.respond line
    match job.perform rounds disk with
    | some (outcome, disk) => replay rounds rest session disk (shown.push outcome.shown)
    | none => none

end Session

end Abacus.Shell
