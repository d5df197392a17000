import Abacus.Bytecode.Container
import Abacus.Variables

/-!
The machine that compiled programs are for. It has one register for each variable, all zero at
the start, and an offset into the code; it halts when the offset is at or past the end. A
register that would leave the range of values stops it as well.
-/

namespace Abacus.Bytecode

structure Machine where
  registers : Array Int
  offset : Nat := 0
deriving DecidableEq

namespace Machine

inductive Tick where
  | went (after : Machine)
  | halted
  | overflowed

def register (machine : Machine) (slot : Slot) : Int := machine.registers.getD slot.toNat 0

def settle (machine : Machine) (slot : Slot) : Option Int → Tick
  | some value =>
    .went ⟨machine.registers.setIfInBounds slot.toNat value, machine.offset + Record.width⟩
  | none => .overflowed

def tick (code : List Record) (machine : Machine) : Tick :=
  match code[machine.offset / Record.width]? with
  | none => .halted
  | some record =>
    match record.opcode with
    | .clear => machine.settle record.slot (some 0)
    | .inc => machine.settle record.slot (Value.succ? (machine.register record.slot))
    | .dec => machine.settle record.slot (Value.pred? (machine.register record.slot))
    | .goto =>
      if machine.register record.slot = 0 then
        .went { machine with offset := machine.offset + Record.width }
      else .went { machine with offset := record.target.toNat }

inductive Ending where
  | halted
  | overflowed
deriving DecidableEq

/-- Runs for at most `ticks` instructions. There is no result if they are used up before. -/
def run? (code : List Record) : (ticks : Nat) → Machine → Option (Ending × Machine)
  | 0, _ => none
  | ticks + 1, machine =>
    match machine.tick code with
    | .went after => run? code ticks after
    | .halted => some (.halted, machine)
    | .overflowed => some (.overflowed, machine)

end Machine

def Container.boot (container : Container) : Machine :=
  { registers := Array.replicate container.varCount.toNat 0 }

end Abacus.Bytecode
