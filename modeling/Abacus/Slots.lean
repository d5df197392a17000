import Std.Data.TreeMap
import Abacus.Statement

/-!
Slots number the variables of a program from zero in the order of their first appearance.
The table keeps the names in slot order and an index from names to slots.
-/

namespace Abacus

abbrev Slot := UInt16

abbrev Op := Statement Slot

structure Slots where
  names : Array String := #[]
  index : Std.TreeMap String Slot := {}

namespace Slots

def capacity : Nat := 65535

def size (slots : Slots) : Nat := slots.names.size

def isEmpty (slots : Slots) : Bool := slots.names.isEmpty

def get? (slots : Slots) (name : String) : Option Slot := slots.index[name]?

def name? (slots : Slots) (slot : Slot) : Option String := slots.names[slot.toNat]?

/-- The slot of a name, which is the next free one if the name is new. A new name beyond the
capacity is refused and the table stays as it was. -/
def assign (slots : Slots) (name : String) : Except Fault Slot × Slots :=
  match slots.index[name]? with
  | some slot => (.ok slot, slots)
  | none =>
    if slots.names.size < capacity then
      let slot := slots.names.size.toUInt16
      (.ok slot, { names := slots.names.push name, index := slots.index.insert name slot })
    else
      (.error { kind := .overflow, detail := .tooManyVariables }, slots)

end Slots

namespace Statement

def link (statement : Statement String) (slots : Slots) : Except Fault Op × Slots :=
  match statement.operand? with
  | none => (.ok (statement.map fun _ => 0), slots)
  | some name =>
    match slots.assign name with
    | (.ok slot, slots) => (.ok (statement.map fun _ => slot), slots)
    | (.error fault, slots) => (.error fault, slots)

def display (op : Op) : String := op.render fun slot => "(" ++ toString slot.toNat ++ ")"

end Statement

end Abacus
