import Abacus.Proofs.Moves
import Abacus.Proofs.Passing
import Abacus.Proofs.Structured

/-!
The moves of a run, said with names in place of slots. A program holds a statement at an address if
the statement stands there with the slots of its names; a state is given by a store of values by
name, the open blocks and the address. Each statement that a program holds moves such a state to
such a state.
-/

namespace Abacus

theorem Statement.ext_operand {ν : Type} {left right : Statement ν}
    (keyword : left.keyword = right.keyword) (operand : left.operand? = right.operand?) :
    left = right := by
  have made : make? left.keyword left.operand?.toList = some left :=
    make?_eq_some_iff.2 ⟨rfl, rfl⟩
  have other : make? left.keyword left.operand?.toList = some right :=
    make?_eq_some_iff.2 ⟨keyword, by rw [operand]⟩
  exact Option.some.inj (made.symm.trans other)

namespace Slots

def slotOf (slots : Slots) (name : String) : Slot := (slots.get? name).getD 0

theorem Sound.name?_slotOf {slots : Slots} (sound : slots.Sound) {name : String}
    (known : name ∈ slots.names) : slots.name? (slots.slotOf name) = some name := by
  obtain ⟨slot, found⟩ := sound.mem_iff.1 known
  rw [slotOf, found, Option.getD_some]
  exact (sound.index_iff name slot).1 found

theorem Sound.slotOf_eq {slots : Slots} (sound : slots.Sound) {name : String} {slot : Slot}
    (named : slots.name? slot = some name) : slots.slotOf name = slot := by
  rw [slotOf, (sound.index_iff name slot).2 named, Option.getD_some]

end Slots

namespace Structured.Store

variable {slots : Slots} {name : String}

theorem fetch_table (sound : slots.Sound) (store : Store) (known : name ∈ slots.names) :
    (store.table slots.names).fetch (slots.slotOf name) = store name := by
  have named := sound.name?_slotOf known
  rw [Slots.name?] at named
  simp [Variables.fetch, Variables.fetch?, table, named]

theorem store_table (sound : slots.Sound) (store : Store) (known : name ∈ slots.names)
    (value : Int) :
    (store.table slots.names).store (slots.slotOf name) value =
      (store.set name value).table slots.names := by
  have named := sound.name?_slotOf known
  simp only [Variables.store, table]
  congr 1
  apply Array.ext
  · simp
  · intro index bounded _
    rw [Array.size_modify, Array.size_map] at bounded
    have value := sound.toNat_place bounded
    have there : slots.name? index.toUInt16 = some slots.names[index] := by
      rw [Slots.name?, value, Array.getElem?_eq_getElem bounded]
    rw [Array.getElem_modify, Array.getElem_map, Array.getElem_map]
    by_cases same : slots.names[index] = name
    · have slot := sound.slotOf_eq (same ▸ there)
      have place : (slots.slotOf name).toNat = index := by
        rw [slot, value]
      simp [place, same, set]
    · have place : (slots.slotOf name).toNat ≠ index := by
        rintro rfl
        rw [Slots.name?] at named
        rw [Array.getElem?_eq_getElem bounded] at named
        exact same (Option.some.inj named)
      simp [place, same, set]

end Structured.Store

namespace Program

open Structured

def Holds (program : Program) (address : Nat) (statement : Statement String) : Prop :=
  (∃ phrase, program.At address phrase (statement.map program.slots.slotOf)) ∧
    ∀ name, statement.operand? = some name → name ∈ program.slots.names

def Reads (program : Program) : Nat → List (Statement String) → Prop
  | _, [] => True
  | address, statement :: rest => program.Holds address statement ∧ program.Reads (address + 1) rest

variable {program : Program} {address : Nat}

theorem reads_append {front back : List (Statement String)} :
    program.Reads address (front ++ back) ↔
      program.Reads address front ∧ program.Reads (address + front.length) back := by
  induction front generalizing address with
  | nil => simp [Reads]
  | cons statement front induction =>
      rw [List.cons_append, Reads, Reads, induction, and_assoc, List.length_cons,
        Nat.add_right_comm address 1, Nat.add_assoc]

theorem Holds.outline (linked : program.WellLinked) {statement : Statement String}
    (holds : program.Holds address statement) :
    program.outline[address]? = some (some statement.keyword) := by
  obtain ⟨⟨phrase, here⟩, _⟩ := holds
  rw [linked.outline_op here, Statement.keyword_map]

theorem Reads.outline (linked : program.WellLinked) {statements : List (Statement String)}
    (reads : program.Reads address statements) :
    program.outline.Reads address (statements.map Statement.keyword) := by
  induction statements generalizing address with
  | nil => trivial
  | cons statement rest induction =>
      obtain ⟨holds, onward⟩ := reads
      exact ⟨holds.outline linked, induction onward⟩

def stateAt (program : Program) (store : Store) (frames : Stack) (address : Nat) : State :=
  { vars := store.table program.slots.names, frames, pc := address }

section Statements

variable {store : Store} {frames : Stack} {name : String}

theorem move_clear (linked : program.WellLinked) (holds : program.Holds address (.clear name)) :
    program.Move (program.stateAt store frames address)
      (program.stateAt (store.set name 0) frames (address + 1)) := by
  obtain ⟨⟨phrase, here⟩, known⟩ := holds
  rw [stateAt, stateAt, ← store.store_table linked.sound (known name rfl)]
  exact .clear here

theorem fetch_stateAt (linked : program.WellLinked) (known : name ∈ program.slots.names) :
    (program.stateAt store frames address).vars.fetch (program.slots.slotOf name) = store name :=
  store.fetch_table linked.sound known

theorem move_incr (linked : program.WellLinked) (holds : program.Holds address (.incr name))
    {value : Int} (fits : Value.succ? (store name) = some value) :
    program.Move (program.stateAt store frames address)
      (program.stateAt (store.set name value) frames (address + 1)) := by
  obtain ⟨⟨phrase, here⟩, known⟩ := holds
  rw [← store.fetch_table linked.sound (known name rfl)] at fits
  rw [stateAt, stateAt, ← store.store_table linked.sound (known name rfl)]
  exact .incr here fits

theorem move_decr (linked : program.WellLinked) (holds : program.Holds address (.decr name))
    {value : Int} (fits : Value.pred? (store name) = some value) :
    program.Move (program.stateAt store frames address)
      (program.stateAt (store.set name value) frames (address + 1)) := by
  obtain ⟨⟨phrase, here⟩, known⟩ := holds
  rw [← store.fetch_table linked.sound (known name rfl)] at fits
  rw [stateAt, stateAt, ← store.store_table linked.sound (known name rfl)]
  exact .decr here fits

theorem failure_incr (linked : program.WellLinked) (holds : program.Holds address (.incr name))
    (overflows : Value.succ? (store name) = none) :
    ∃ fault, program.Failure (program.stateAt store frames address) fault
      (program.stateAt store frames address) ∧ fault.kind = .overflow := by
  obtain ⟨⟨phrase, here⟩, known⟩ := holds
  rw [← store.fetch_table linked.sound (known name rfl)] at overflows
  exact ⟨_, .incr here overflows, rfl⟩

theorem failure_decr (linked : program.WellLinked) (holds : program.Holds address (.decr name))
    (overflows : Value.pred? (store name) = none) :
    ∃ fault, program.Failure (program.stateAt store frames address) fault
      (program.stateAt store frames address) ∧ fault.kind = .overflow := by
  obtain ⟨⟨phrase, here⟩, known⟩ := holds
  rw [← store.fetch_table linked.sound (known name rfl)] at overflows
  exact ⟨_, .decr here overflows, rfl⟩

theorem overfull_push {frame : Frame} (room : frames.frames.length < Stack.limit) :
    (frames.push frame).overfull = false := by
  rw [← Bool.not_eq_true, Stack.overfull_iff, Stack.frames_push, List.length_cons]
  exact Nat.not_lt.2 room

theorem move_while (holds : program.Holds address (.whileNonzero name))
    (room : frames.frames.length < Stack.limit) :
    program.Move (program.stateAt store frames address)
      (program.stateAt store (frames.push (.loop address (program.slots.slotOf name)))
        (address + 1)) := by
  obtain ⟨⟨phrase, here⟩, _⟩ := holds
  exact .openLoop here (overfull_push room)

theorem move_repeat (linked : program.WellLinked) (known : name ∈ program.slots.names)
    (start : Nat) (holds : program.Holds address .endWhile) (nonzero : store name ≠ 0) :
    program.Move
      (program.stateAt store (frames.push (.loop start (program.slots.slotOf name))) address)
      (program.stateAt store (frames.push (.loop start (program.slots.slotOf name)))
        (start + 1)) := by
  obtain ⟨⟨phrase, here⟩, _⟩ := holds
  exact .repeatLoop here rfl (by rw [fetch_stateAt linked known]; exact nonzero)

theorem move_leave (linked : program.WellLinked) (known : name ∈ program.slots.names)
    (start : Nat) (holds : program.Holds address .endWhile) (zero : store name = 0) :
    program.Move
      (program.stateAt store (frames.push (.loop start (program.slots.slotOf name))) address)
      (program.stateAt store frames (address + 1)) := by
  obtain ⟨⟨phrase, here⟩, _⟩ := holds
  exact .leaveLoop here rfl (by rw [fetch_stateAt linked known]; exact zero)

theorem move_takeFirst (linked : program.WellLinked)
    (holds : program.Holds address (.ifNonzero name)) (nonzero : store name ≠ 0)
    (room : frames.frames.length < Stack.limit) :
    program.Move (program.stateAt store frames address)
      (program.stateAt store (frames.push (.chain true)) (address + 1)) := by
  obtain ⟨⟨phrase, here⟩, known⟩ := holds
  refine .takeFirst here ?_ (overfull_push room)
  rw [fetch_stateAt linked (known name rfl)]
  exact nonzero

theorem move_passFirst (linked : program.WellLinked)
    (holds : program.Holds address (.ifNonzero name)) (zero : store name = 0)
    (room : frames.frames.length < Stack.limit) {next : Nat}
    (found : program.outline.next? address Keyword.branchEnds = some next) :
    program.Move (program.stateAt store frames address)
      (program.stateAt store (frames.push (.chain false)) next) := by
  obtain ⟨⟨phrase, here⟩, known⟩ := holds
  refine .passFirst here ?_ found (overfull_push room)
  rw [fetch_stateAt linked (known name rfl)]
  exact zero

theorem move_takeElif (linked : program.WellLinked)
    (holds : program.Holds address (.elifNonzero name)) (nonzero : store name ≠ 0) :
    program.Move (program.stateAt store (frames.push (.chain false)) address)
      (program.stateAt store (frames.push (.chain true)) (address + 1)) := by
  obtain ⟨⟨phrase, here⟩, known⟩ := holds
  refine .takeElif here rfl ?_
  rw [fetch_stateAt linked (known name rfl)]
  exact nonzero

theorem move_passElif (linked : program.WellLinked)
    (holds : program.Holds address (.elifNonzero name)) {resolved : Bool}
    (passed : resolved = true ∨ store name = 0) {next : Nat}
    (found : program.outline.next? address Keyword.branchEnds = some next) :
    program.Move (program.stateAt store (frames.push (.chain resolved)) address)
      (program.stateAt store (frames.push (.chain resolved)) next) := by
  obtain ⟨⟨phrase, here⟩, known⟩ := holds
  refine .passElif here rfl ?_ found
  rw [fetch_stateAt linked (known name rfl)]
  exact passed

theorem move_takeElse (holds : program.Holds address .elseBranch) :
    program.Move (program.stateAt store (frames.push (.chain false)) address)
      (program.stateAt store (frames.push (.chain true)) (address + 1)) := by
  obtain ⟨⟨phrase, here⟩, _⟩ := holds
  exact .takeElse here rfl

theorem move_passElse (holds : program.Holds address .elseBranch) {next : Nat}
    (found : program.outline.next? address Keyword.chainEnds = some next) :
    program.Move (program.stateAt store (frames.push (.chain true)) address)
      (program.stateAt store (frames.push (.chain true)) next) := by
  obtain ⟨⟨phrase, here⟩, _⟩ := holds
  exact .passElse here rfl found

theorem move_endIf (holds : program.Holds address .endIf) (resolved : Bool) :
    program.Move (program.stateAt store (frames.push (.chain resolved)) address)
      (program.stateAt store frames (address + 1)) := by
  obtain ⟨⟨phrase, here⟩, _⟩ := holds
  exact .closeChain here rfl

end Statements

end Program

end Abacus
