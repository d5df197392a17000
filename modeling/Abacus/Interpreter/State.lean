import Abacus.Program
import Abacus.Stack
import Abacus.Variables

/-!
The state of a run: the variables, the control frames, the address of the next phrase, and
the flags that decide what the next call does.
-/

namespace Abacus

structure State where
  vars : Variables
  frames : Stack := .empty
  pc : Nat := 0
  trace : Bool := false
  done : Bool := false
  interrupted : Bool := false

namespace State

def start (program : Program) : State := { vars := .ofSlots program.slots }

def setTrace (state : State) (trace : Bool) : State := { state with trace }

/-- Starts over with all variables zero. Tracing stays as it is. -/
def reset (state : State) : State := { vars := state.vars.clear, trace := state.trace }

/-- Asks a run that is not over to stop at its next call. -/
def interrupt (state : State) : State :=
  if state.done then state else { state with interrupted := true }

end State

end Abacus
