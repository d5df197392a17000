import Abacus.Interpreter.State

/-!
One step of a run. A loop tests its variable only at its end, so its body runs at least once.
A chain of branches takes the first branch whose variable is not zero; the branches not taken
are passed over by looking up the next keyword of the chain in the outline.
-/

namespace Abacus

inductive Step where
  | skipped (after : State)
  | ran (after : State)
  | failed (fault : Fault) (left : State)

namespace State

def stepTo (state : State) (address : Nat) : Step := .ran { state with pc := address }

def settle (state : State) (phrase : Phrase) (slot : Slot) : Option Int → Step
  | some value => .ran { state with vars := state.vars.store slot value, pc := state.pc + 1 }
  | none => .failed (phrase.fault .overflow .none) state

def enter (state : State) (phrase : Phrase) (frame : Frame) (address : Nat) : Step :=
  let frames := state.frames.push frame
  if frames.overfull then .failed (Stack.overflow phrase.place) { state with frames }
  else .ran { state with frames, pc := address }

def leave (state : State) : Step :=
  .ran { state with frames := state.frames.pop, pc := state.pc + 1 }

def takeBranch (state : State) : Step :=
  .ran { state with frames := state.frames.replaceTop (.chain true), pc := state.pc + 1 }

end State

namespace Program

/-- Goes on at the next of `targets` in the block of the current phrase. -/
def jump (program : Program) (state : State) (phrase : Phrase) (targets : List Keyword)
    (goOn : Nat → Step) : Step :=
  match program.outline.next? state.pc targets with
  | some address => goOn address
  | none => .failed (phrase.fault .ifWithoutEndif .none) state

def obey (program : Program) (state : State) (phrase : Phrase) : Op → Step
  | .clear slot => state.settle phrase slot (some 0)
  | .incr slot => state.settle phrase slot (Value.succ? (state.vars.fetch slot))
  | .decr slot => state.settle phrase slot (Value.pred? (state.vars.fetch slot))
  | .whileNonzero slot => state.enter phrase (.loop state.pc slot) (state.pc + 1)
  | .endWhile =>
    match state.frames.top? with
    | some (.loop returnTo slot) =>
      if state.vars.fetch slot = 0 then state.leave else state.stepTo (returnTo + 1)
    | _ => .failed (phrase.fault .endWithoutWhile .none) state
  | .ifNonzero slot =>
    if state.vars.fetch slot = 0 then
      program.jump state phrase Keyword.branchEnds fun address =>
        state.enter phrase (.chain false) address
    else state.enter phrase (.chain true) (state.pc + 1)
  | .elifNonzero slot =>
    match state.frames.top? with
    | some (.chain resolved) =>
      if resolved || state.vars.fetch slot = 0 then
        program.jump state phrase Keyword.branchEnds fun address => state.stepTo address
      else state.takeBranch
    | _ => .failed (phrase.fault .elseWithoutIf .none) state
  | .elseBranch =>
    match state.frames.top? with
    | some (.chain resolved) =>
      if resolved then
        program.jump state phrase Keyword.chainEnds fun address => state.stepTo address
      else state.takeBranch
    | _ => .failed (phrase.fault .elseWithoutIf .none) state
  | .endIf =>
    match state.frames.top? with
    | some (.chain _) => state.leave
    | _ => .failed (phrase.fault .elseWithoutIf .endifWithoutIf) state

def step (program : Program) (state : State) : Step :=
  match program.entries[state.pc]? with
  | none => .skipped { state with pc := state.pc + 1 }
  | some entry =>
    match entry.linked with
    | .skipped => .skipped { state with pc := state.pc + 1 }
    | .broken fault => .failed fault state
    | .op op => program.obey state entry.phrase op

end Program

end Abacus
