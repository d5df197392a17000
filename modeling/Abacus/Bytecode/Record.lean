import Abacus.Bytecode.Word
import Abacus.Slots

/-!
Instructions of compiled programs. Each is a record of seven bytes: the opcode, the slot of
its variable and a jump target, which is the offset of a record in the code. Only GOTO uses
its target; it jumps when its variable is not zero.
-/

namespace Abacus.Bytecode

inductive Opcode where
  | clear
  | dec
  | inc
  | goto
deriving DecidableEq

namespace Opcode

def byte : Opcode → UInt8
  | .clear => 0x00
  | .dec => 0x40
  | .inc => 0x80
  | .goto => 0xB0

def ofByte? (byte : UInt8) : Option Opcode :=
  [Opcode.clear, .dec, .inc, .goto].find? (·.byte == byte)

def name : Opcode → String
  | .clear => "CLEAR"
  | .dec => "DEC"
  | .inc => "INC"
  | .goto => "GOTO"

theorem ofByte?_byte (opcode : Opcode) : ofByte? opcode.byte = some opcode := by
  cases opcode <;> decide

theorem ofByte?_eq_some_iff {byte : UInt8} {opcode : Opcode} :
    ofByte? byte = some opcode ↔ byte = opcode.byte := by
  constructor
  · intro found
    exact (by simpa using List.find?_some found : opcode.byte = byte).symm
  · rintro rfl
    exact ofByte?_byte opcode

end Opcode

structure Record where
  opcode : Opcode
  slot : Slot
  target : UInt32 := 0
deriving DecidableEq

namespace Record

def width : Nat := 7

def clear (slot : Slot) : Record := { opcode := .clear, slot }

def inc (slot : Slot) : Record := { opcode := .inc, slot }

def dec (slot : Slot) : Record := { opcode := .dec, slot }

def goto (slot : Slot) (target : UInt32) : Record := { opcode := .goto, slot, target }

def bytes (record : Record) : List UInt8 :=
  record.opcode.byte :: (bytes16 record.slot ++ bytes32 record.target)

def read : List UInt8 → Except Fault.Detail Record
  | [opcode, slot₁, slot₀, target₃, target₂, target₁, target₀] =>
    match Opcode.ofByte? opcode with
    | some opcode =>
      .ok ⟨opcode, word16 slot₁ slot₀, word32 target₃ target₂ target₁ target₀⟩
    | none => .error .unknownOpcode
  | _ => .error .truncatedRecord

def render (record : Record) : String :=
  let short := record.opcode.name ++ " " ++ toString record.slot.toNat
  match record.opcode with
  | .goto => short ++ " " ++ toString record.target.toNat
  | _ => short

@[simp] theorem length_bytes (record : Record) : record.bytes.length = width := rfl

theorem read_bytes (record : Record) : read record.bytes = .ok record := by
  simp only [read, bytes, bytes16, bytes32, List.cons_append, List.nil_append,
    Opcode.ofByte?_byte, word16_bytes16, word32_bytes32]

theorem read_eq_ok_iff {bytes : List UInt8} {record : Record} :
    read bytes = .ok record ↔ bytes = record.bytes := by
  constructor
  · intro decoded
    unfold read at decoded
    split at decoded
    · split at decoded
      · rename_i found
        cases decoded
        simp [Record.bytes, bytes16_word16, bytes32_word32, Opcode.ofByte?_eq_some_iff.1 found]
      · cases decoded
    · cases decoded
  · rintro rfl
    exact read_bytes record

end Record

end Abacus.Bytecode
