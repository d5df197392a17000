import Abacus.Bytecode.Container
import Abacus.Program

/-!
Where the statements of a program lie in its code. Branches need a jump that is always taken;
a program with branches therefore has one more variable, in the slot after its own, which a
prologue of two records sets to one.
-/

namespace Abacus

def Statement.codeLength {ν : Type} : Statement ν → Nat
  | .whileNonzero _ | .endIf => 0
  | .clear _ | .incr _ | .decr _ | .endWhile | .elseBranch => Bytecode.Record.width
  | .ifNonzero _ => 2 * Bytecode.Record.width
  | .elifNonzero _ => 3 * Bytecode.Record.width

def Linked.codeLength (linked : Linked) : Nat :=
  match linked.op? with
  | some statement => statement.codeLength
  | none => 0

def Linked.branches (linked : Linked) : Bool :=
  match linked.op? with
  | some (.ifNonzero _) | some (.elifNonzero _) | some .elseBranch => true
  | _ => false

namespace Bytecode

/-- The offset of each statement, the last one being the end of the code, and the slot of the
variable that is always one if the program branches. -/
structure Layout where
  always? : Option Slot
  offsets : Array Nat

namespace Layout

def prologueLength (branching : Bool) : Nat := if branching then 2 * Record.width else 0

def place (offsets : Array Nat × Nat) (entry : Entry) : Array Nat × Nat :=
  (offsets.1.push offsets.2, offsets.2 + entry.linked.codeLength)

def ofProgram (program : Program) : Except Fault Layout :=
  match program.firstFault? with
  | some fault => .error fault
  | none =>
    let branching := program.entries.any fun entry => entry.linked.branches
    if branching && Slots.capacity ≤ program.slots.size then
      .error { kind := .overflow, detail := .tooManyVariables }
    else
      let (offsets, finish) := program.entries.foldl place (#[], prologueLength branching)
      if codeLimit < finish then .error { kind := .overflow, detail := .programTooLarge }
      else
        .ok {
          always? := if branching then some program.slots.size.toUInt16 else none
          offsets := offsets.push finish }

def offset (layout : Layout) (address : Nat) : Nat := layout.offsets.getD address 0

/-- Where control lands when the branch before `address` is not taken: past the jump that ends
that branch. -/
def entryPoint (layout : Layout) (program : Program) (address : Nat) : Nat :=
  match (program.linkedAt address).op? with
  | some (.elifNonzero _) | some .elseBranch => layout.offset address + Record.width
  | _ => layout.offset address

def prologue (layout : Layout) : List Record :=
  match layout.always? with
  | some always => [.clear always, .inc always]
  | none => []

end Layout

end Bytecode

end Abacus
