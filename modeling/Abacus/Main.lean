import Abacus.Shell.Batch
import Abacus.Shell.Session

/-!
The terminal: performs the jobs of the command line and of the session on real files, and
prints what they show as it comes.
-/

namespace Abacus.Terminal

open Shell

def usage : String :=
  "Usage: abacus [OPTIONS] [FILE]\n\n" ++
  "Arguments:\n  [FILE]  Source text or compiled program\n\n" ++
  "Options:\n" ++
  "  -t, --trace          Print the variables after every statement\n" ++
  "      --time           Report how long the program ran\n" ++
  "  -c, --compile <OUT>  Compile FILE and write bytecode to OUT\n" ++
  "  -l, --list           Compile FILE and print the disassembly\n" ++
  "  -h, --help           Print help\n" ++
  "  -V, --version        Print version\n"

def version : String := "abacus 0.1.0\n"

/-- Whether an error has this number. Some calls report the number negated. -/
def isNumbered (number code : UInt32) : Bool := code == number || -code == number

def describe : IO.Error → String
  | .noFileOrDirectory .. => Refusal.missing.message
  | .inappropriateType _ code _ =>
    if isNumbered 20 code then Refusal.notDirectory.message else Refusal.isDirectory.message
  | .invalidArgument _ code _ =>
    if isNumbered 36 code then Refusal.nameTooLong.message else Refusal.nameHasNul.message
  | error => toString error

def contents (name : String) : IO (Except String (List UInt8)) := do
  try
    return .ok (← IO.FS.readBinFile name).toList
  catch error => return .error (describe error)

partial def stream (program : Program) (state : State) : IO (Option String) := do
  match program.execute Program.roundCycles state with
  | (.running, after) => stream program after
  | (.traced text, after) =>
    IO.print (text ++ "\n" ++ after.vars.render)
    stream program after
  | (.stopped, after) =>
    IO.print after.vars.render
    return none
  | (.failed fault, _) => return some fault.message

def perform : Job → IO (Option String)
  | .print text => do
    IO.print text
    return none
  | .complain report => return some report
  | .save name container listed => do
    try
      IO.FS.writeBinFile name ⟨container.encode.toArray⟩
      if listed then IO.print container.listing
      return none
    catch error => return some (describe error)
  | .run program trace timed => do
    let before ← IO.monoMsNow
    let complaint? ← stream program ((State.start program).setTrace trace)
    let after ← IO.monoMsNow
    if timed && complaint?.isNone then IO.println (toString (after - before) ++ " ms")
    return complaint?

partial def converse (input : IO.FS.Stream) (session : Session) : IO Unit := do
  IO.print "] "
  (← IO.getStdout).flush
  let line ← input.getLine
  if line.isEmpty then return
  let text := if line.endsWith "\n" then (line.dropEnd 1).toString else line
  let (job, session) := session.respond text
  if let some complaint := ← perform job then IO.println (bold complaint)
  converse input session

def workOn (invocation : Invocation) (name : String) : IO UInt32 := do
  let job := match ← contents name with
    | .ok bytes => Job.ofFile invocation bytes
    | .error report => .complain report
  match ← perform job with
  | none => return 0
  | some complaint =>
    IO.eprintln (bold complaint)
    return 1

def answer (arguments : List String) : IO UInt32 := do
  match Invocation.read arguments with
  | .help =>
    IO.print usage
    return 0
  | .version =>
    IO.print version
    return 0
  | .refused =>
    IO.eprint usage
    return 2
  | .work invocation =>
    match invocation.file? with
    | some name => workOn invocation name
    | none =>
      converse (← IO.getStdin) {}
      return 0

end Abacus.Terminal

def main (arguments : List String) : IO UInt32 := Abacus.Terminal.answer arguments
