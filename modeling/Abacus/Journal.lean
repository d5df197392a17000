import Abacus.Bytecode.Compile
import Abacus.Interpreter.Execute

/-!
The journal tells what linking, compiling and running a program did, in order: the slots given
out, the records emitted and the statements come to.
-/

namespace Abacus

inductive Notice where
  | slotAssigned (slot : Nat) (name : String)
  | emitted (offset : Nat) (emission : Bytecode.Emission)
  | visited (address : Nat) (op : Op)

namespace Notice

def isTrace : Notice → Bool
  | .visited _ _ => true
  | _ => false

def text : Notice → String
  | .slotAssigned slot name => "slot " ++ toString slot ++ " = " ++ name
  | .emitted offset ⟨record, origin?⟩ =>
    let line := Text.alignRight 8 (toString offset) ++ "  " ++ record.render
    match origin? with
    | some phrase => line ++ "  <- " ++ phrase.text
    | none => line
  | .visited address op => Text.alignRight 6 (toString address) ++ "  " ++ op.display

end Notice

namespace Program

def linkJournal (program : Program) : Array Notice :=
  program.slots.names.mapIdx fun slot name => .slotAssigned slot name

/-- The journal of compiling a program. A fault ends it after the records emitted before. -/
def compileJournal (program : Program) : Array Notice :=
  match program.draft with
  | .error _ => program.linkJournal
  | .ok draft =>
    program.linkJournal ++
      draft.emissions.mapIdx fun index emission =>
        Notice.emitted (index * Bytecode.Record.width) emission

def runJournal (program : Program) (cycles : Nat) : Array Notice :=
  program.linkJournal ++
    (program.visits cycles (.start program) #[]).map fun visit => .visited visit.1 visit.2

end Program

end Abacus
