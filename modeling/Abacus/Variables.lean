import Abacus.Slots

/-!
The variables of a running program: one cell for each slot, holding a name and a value.
Values are integers of 64 bits; a step out of their range has no result.
-/

namespace Abacus

namespace Value

def least : Int := -9223372036854775808

def greatest : Int := 9223372036854775807

def succ? (value : Int) : Option Int := if value < greatest then some (value + 1) else none

def pred? (value : Int) : Option Int := if least < value then some (value - 1) else none

end Value

structure Cell where
  name : String
  value : Int
deriving DecidableEq

structure Variables where
  cells : Array Cell
deriving DecidableEq

namespace Variables

def ofSlots (slots : Slots) : Variables := ⟨slots.names.map fun name => ⟨name, 0⟩⟩

def size (vars : Variables) : Nat := vars.cells.size

def isEmpty (vars : Variables) : Bool := vars.cells.isEmpty

/-- The value of a variable by name, in any spelling of its letters; zero if there is none. -/
def get (vars : Variables) (name : String) : Int :=
  let key := Text.lowered name
  match vars.cells.find? (·.name == key) with
  | some cell => cell.value
  | none => 0

def fetch? (vars : Variables) (slot : Slot) : Option Int :=
  vars.cells[slot.toNat]?.map Cell.value

/-- The value in a slot; zero outside the table. -/
def fetch (vars : Variables) (slot : Slot) : Int := (vars.fetch? slot).getD 0

/-- Puts a value into a slot; outside the table nothing changes. -/
def store (vars : Variables) (slot : Slot) (value : Int) : Variables :=
  ⟨vars.cells.modify slot.toNat fun cell => { cell with value }⟩

def store? (vars : Variables) (slot : Slot) (value : Int) : Option Variables :=
  if slot.toNat < vars.size then some (vars.store slot value) else none

def clear (vars : Variables) : Variables := ⟨vars.cells.map fun cell => { cell with value := 0 }⟩

def render (vars : Variables) : String :=
  vars.cells.foldl (fun text cell => text ++ cell.name ++ " = " ++ toString cell.value ++ "\n") ""

@[simp] theorem size_store (vars : Variables) (slot : Slot) (value : Int) :
    (vars.store slot value).size = vars.size := by
  simp [store, size]

@[simp] theorem size_clear (vars : Variables) : vars.clear.size = vars.size := by
  simp [clear, size]

@[simp] theorem size_ofSlots (slots : Slots) : (ofSlots slots).size = slots.size := by
  simp [ofSlots, size, Slots.size]

@[simp] theorem fetch_ofSlots (slots : Slots) (slot : Slot) : (ofSlots slots).fetch slot = 0 := by
  simp only [fetch, fetch?, ofSlots, Array.getElem?_map, Option.map_map]
  cases slots.names[slot.toNat]? <;> rfl

theorem fetch?_isSome_iff {vars : Variables} {slot : Slot} :
    (vars.fetch? slot).isSome = true ↔ slot.toNat < vars.size := by
  simp [fetch?, size]

theorem fetch_store_self {vars : Variables} {slot : Slot} (value : Int)
    (inside : slot.toNat < vars.size) : (vars.store slot value).fetch slot = value := by
  simp only [size] at inside
  simp [fetch, fetch?, store, inside, Array.getElem_modify]

theorem fetch_store_of_ne {vars : Variables} {slot other : Slot} (value : Int)
    (differ : slot ≠ other) : (vars.store slot value).fetch other = vars.fetch other := by
  have apart : slot.toNat ≠ other.toNat := fun same => differ (UInt16.toNat_inj.1 same)
  simp [fetch, fetch?, store, Array.getElem?_modify, apart]

end Variables

end Abacus
