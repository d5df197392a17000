import Abacus.Interpreter.Step

/-!
Runs under a budget of cycles. A call ends when its budget is used up, after a traced
statement, at the end of the program, or with a fault; after the last two the run is over
until it is reset.
-/

namespace Abacus

inductive Event where
  | running
  | traced (text : String)
  | stopped
  | failed (fault : Fault)
deriving DecidableEq

namespace Program

def cycle (program : Program) : (cycles : Nat) → State → Event × State
  | 0, state => (.running, state)
  | cycles + 1, state =>
    match program.phrase? state.pc with
    | none => (.stopped, { state with done := true })
    | some phrase =>
      match program.step state with
      | .skipped after => program.cycle cycles after
      | .ran after =>
        if after.trace then (.traced phrase.text, after) else program.cycle cycles after
      | .failed fault left => (.failed fault, { left with done := true })

/-- The fault of a run that was interrupted: at the phrase it would have gone on with. -/
def breakFault (program : Program) (state : State) : Fault :=
  match program.phrase? state.pc with
  | some phrase => phrase.fault .interrupted .none
  | none => { kind := .interrupted }

def execute (program : Program) (cycles : Nat) (state : State) : Event × State :=
  if state.done then (.stopped, state)
  else if state.interrupted then
    (.failed (program.breakFault state), { state with interrupted := false, done := true })
  else program.cycle cycles state

def roundCycles : Nat := 5000

/-- Runs to the end in at most `rounds` rounds, and gives the fault that ended the run, if
one did, with the state left. There is no result if the rounds are used up before. -/
def run? (program : Program) : (rounds : Nat) → State → Option (Option Fault × State)
  | 0, _ => none
  | rounds + 1, state =>
    match program.execute roundCycles state with
    | (.running, after) => program.run? rounds after
    | (.traced _, after) => program.run? rounds after
    | (.stopped, after) => some (none, after)
    | (.failed fault, after) => some (some fault, after)

/-- The statements that at most `cycles` cycles come to, each with its address, appended to
`seen`. A statement that fails is among them, a broken phrase is not. -/
def visits (program : Program) : (cycles : Nat) → State → Array (Nat × Op) → Array (Nat × Op)
  | 0, _, seen => seen
  | cycles + 1, state, seen =>
    match program.entries[state.pc]? with
    | none => seen
    | some entry =>
      let seen := match entry.linked with
        | .op op => seen.push (state.pc, op)
        | _ => seen
      match program.step state with
      | .skipped after => program.visits cycles after seen
      | .ran after => program.visits cycles after seen
      | .failed _ _ => seen

end Program

end Abacus
