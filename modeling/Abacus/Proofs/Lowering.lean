import Abacus.Bytecode.Compile
import Abacus.Proofs.Moves

/-!
What compilation does, address by address. The draft before an address is the code and the
stack of open blocks with which the compiler comes to it. In a program that compiles every
statement adds to the draft what `Lowers` lists for it, a skipped phrase adds nothing, and the
code before an address is as long as the layout says.
-/

namespace Abacus.Bytecode

namespace Layout

inductive Lowers (layout : Layout) (program : Program) (address : Nat) (frames : Stack) :
    Op → List Record → Stack → Prop
  | clear {slot : Slot} :
      Lowers layout program address frames (.clear slot) [.clear slot] frames
  | incr {slot : Slot} : Lowers layout program address frames (.incr slot) [.inc slot] frames
  | decr {slot : Slot} : Lowers layout program address frames (.decr slot) [.dec slot] frames
  | openLoop {slot : Slot} (room : (frames.push (.loop address slot)).overfull = false) :
      Lowers layout program address frames (.whileNonzero slot) []
        (frames.push (.loop address slot))
  | closeLoop {returnTo : Nat} {slot : Slot}
      (top : frames.top? = some (.loop returnTo slot)) :
      Lowers layout program address frames .endWhile
        [.goto slot (layout.offset returnTo).toUInt32] frames.pop
  | openChain {slot always : Slot} {next : Nat}
      (room : (frames.push (.chain false)).overfull = false)
      (sure : layout.always? = some always)
      (found : program.outline.next? address Keyword.branchEnds = some next) :
      Lowers layout program address frames (.ifNonzero slot)
        [.goto slot (layout.offset address + 2 * Record.width).toUInt32,
          .goto always (layout.entryPoint program next).toUInt32]
        (frames.push (.chain false))
  | elifBranch {slot always : Slot} {resolved : Bool} {chainEnd next : Nat}
      (top : frames.top? = some (.chain resolved)) (sure : layout.always? = some always)
      (last : program.outline.next? address Keyword.chainEnds = some chainEnd)
      (found : program.outline.next? address Keyword.branchEnds = some next) :
      Lowers layout program address frames (.elifNonzero slot)
        [.goto always (layout.offset chainEnd).toUInt32,
          .goto slot (layout.offset address + 3 * Record.width).toUInt32,
          .goto always (layout.entryPoint program next).toUInt32]
        frames
  | elseBranch {always : Slot} {resolved : Bool} {chainEnd : Nat}
      (top : frames.top? = some (.chain resolved)) (sure : layout.always? = some always)
      (last : program.outline.next? address Keyword.chainEnds = some chainEnd) :
      Lowers layout program address frames .elseBranch
        [.goto always (layout.offset chainEnd).toUInt32] frames
  | closeChain {resolved : Bool} (top : frames.top? = some (.chain resolved)) :
      Lowers layout program address frames .endIf [] frames.pop

theorem openBlock_eq_ok_iff {phrase : Phrase} {frame : Frame} {frames after : Stack} :
    openBlock phrase frame frames = .ok after ↔
      (frames.push frame).overfull = false ∧ after = frames.push frame := by
  cases room : (frames.push frame).overfull <;> simp [openBlock, room, eq_comm]

theorem alwaysSlot_eq_ok_iff {layout : Layout} {phrase : Phrase} {always : Slot} :
    layout.alwaysSlot phrase = .ok always ↔ layout.always? = some always := by
  cases sure : layout.always? <;> simp [alwaysSlot, sure]

theorem findNext_eq_ok_iff {program : Program} {phrase : Phrase} {address found : Nat}
    {targets : List Keyword} :
    findNext program phrase address targets = .ok found ↔
      program.outline.next? address targets = some found := by
  cases next : program.outline.next? address targets <;> simp [findNext, next]

theorem expectChain_eq_ok_iff {phrase : Phrase} {frames : Stack} :
    expectChain phrase frames = .ok () ↔ ∃ resolved, frames.top? = some (.chain resolved) := by
  rcases Program.top_cases frames with ⟨_, _, top⟩ | ⟨_, top⟩ | top <;>
    simp [expectChain, top]

theorem bind_eq_ok_iff {α β : Type} {first : Except Fault α} {rest : α → Except Fault β}
    {result : β} :
    first >>= rest = .ok result ↔ ∃ value, first = .ok value ∧ rest value = .ok result := by
  cases first <;> simp [bind, Except.bind]

theorem lower_eq_ok_iff {layout : Layout} {program : Program} {address : Nat} {phrase : Phrase}
    {frames after : Stack} {op : Op} {records : List Record} :
    layout.lower program address phrase frames op = .ok (records, after) ↔
      layout.Lowers program address frames op records after := by
  constructor
  · intro lowered
    cases op with
    | clear slot =>
        cases lowered
        exact .clear
    | incr slot =>
        cases lowered
        exact .incr
    | decr slot =>
        cases lowered
        exact .decr
    | whileNonzero slot =>
        obtain ⟨_, opened, rest⟩ := bind_eq_ok_iff.1 lowered
        obtain ⟨room, rfl⟩ := openBlock_eq_ok_iff.1 opened
        cases rest
        exact .openLoop room
    | endWhile =>
        rcases Program.top_cases frames with ⟨_, _, top⟩ | ⟨_, top⟩ | top <;>
          simp only [lower, top] at lowered <;> cases lowered
        exact .closeLoop top
    | ifNonzero slot =>
        obtain ⟨_, opened, rest⟩ := bind_eq_ok_iff.1 lowered
        obtain ⟨room, rfl⟩ := openBlock_eq_ok_iff.1 opened
        obtain ⟨_, sure, rest⟩ := bind_eq_ok_iff.1 rest
        obtain ⟨_, found, rest⟩ := bind_eq_ok_iff.1 rest
        cases rest
        exact .openChain room (alwaysSlot_eq_ok_iff.1 sure) (findNext_eq_ok_iff.1 found)
    | elifNonzero slot =>
        obtain ⟨_, expected, rest⟩ := bind_eq_ok_iff.1 lowered
        obtain ⟨resolved, top⟩ := expectChain_eq_ok_iff.1 expected
        obtain ⟨_, sure, rest⟩ := bind_eq_ok_iff.1 rest
        obtain ⟨_, last, rest⟩ := bind_eq_ok_iff.1 rest
        obtain ⟨_, found, rest⟩ := bind_eq_ok_iff.1 rest
        cases rest
        exact .elifBranch top (alwaysSlot_eq_ok_iff.1 sure) (findNext_eq_ok_iff.1 last)
          (findNext_eq_ok_iff.1 found)
    | elseBranch =>
        obtain ⟨_, expected, rest⟩ := bind_eq_ok_iff.1 lowered
        obtain ⟨resolved, top⟩ := expectChain_eq_ok_iff.1 expected
        obtain ⟨_, sure, rest⟩ := bind_eq_ok_iff.1 rest
        obtain ⟨_, last, rest⟩ := bind_eq_ok_iff.1 rest
        cases rest
        exact .elseBranch top (alwaysSlot_eq_ok_iff.1 sure) (findNext_eq_ok_iff.1 last)
    | endIf =>
        rcases Program.top_cases frames with ⟨_, _, top⟩ | ⟨_, top⟩ | top <;>
          simp only [lower, top] at lowered <;> cases lowered
        exact .closeChain top
  · intro lowers
    cases lowers with
    | clear => rfl
    | incr => rfl
    | decr => rfl
    | openLoop room => simp [lower, openBlock, room, bind, Except.bind, pure, Except.pure]
    | closeLoop top => simp [lower, top]
    | openChain room sure found =>
        simp [lower, openBlock, room, alwaysSlot, sure, findNext, found, bind, Except.bind, pure,
          Except.pure]
    | elifBranch top sure last found =>
        simp [lower, expectChain, top, alwaysSlot, sure, findNext, last, found, bind, Except.bind,
          pure, Except.pure]
    | elseBranch top sure last =>
        simp [lower, expectChain, top, alwaysSlot, sure, findNext, last, bind, Except.bind, pure,
          Except.pure]
    | closeChain top => simp [lower, top]

/-- A statement is lowered to as many bytes as the layout keeps for it. -/
theorem Lowers.length {layout : Layout} {program : Program} {address : Nat}
    {frames after : Stack} {op : Op} {records : List Record}
    (lowers : layout.Lowers program address frames op records after) :
    records.length * Record.width = op.codeLength := by
  cases lowers <;> rfl

end Layout

def Draft.records (draft : Draft) : List Record := draft.emissions.toList.map Emission.record

namespace Layout

theorem records_emit (emissions : Array Emission) (origin? : Option Phrase)
    (records : List Record) :
    (emit emissions origin? records).toList.map Emission.record =
      emissions.toList.map Emission.record ++ records := by
  induction records generalizing emissions with
  | nil => simp [emit]
  | cons record records induction =>
      have rest := induction (emissions.push ⟨record, origin?⟩)
      simp only [emit, List.foldl_cons] at rest ⊢
      rw [rest]
      simp

theorem lowerFrom_append {layout : Layout} {program : Program} (front back : List Entry)
    (address : Nat) {draft : Draft} (sound : draft.fault? = none) :
    layout.lowerFrom program (front ++ back) address draft =
      match (layout.lowerFrom program front address draft).fault? with
      | some _ => layout.lowerFrom program front address draft
      | none =>
        layout.lowerFrom program back (address + front.length)
          (layout.lowerFrom program front address draft) := by
  induction front generalizing address draft with
  | nil => simp [lowerFrom, sound]
  | cons entry front induction =>
      have count : address + (entry :: front).length = address + 1 + front.length := by
        simp only [List.length_cons]
        omega
      rw [count]
      simp only [List.cons_append, lowerFrom]
      cases entry.linked.op? with
      | none => exact induction (address + 1) sound
      | some op =>
          cases lowered : layout.lower program address entry.phrase draft.frames op with
          | ok result =>
              simp only [lowered]
              exact induction (address + 1) rfl
          | error fault => simp only [lowered]

/-- The code and the open blocks with which the compiler comes to an address. -/
def draftBefore (layout : Layout) (program : Program) (address : Nat) : Draft :=
  layout.lowerFrom program (program.entries.toList.take address) 0
    { emissions := emit #[] none layout.prologue }

def framesBefore (layout : Layout) (program : Program) (address : Nat) : Stack :=
  (layout.draftBefore program address).frames

def codeBefore (layout : Layout) (program : Program) (address : Nat) : List Record :=
  (layout.draftBefore program address).records

theorem draftBefore_size (layout : Layout) (program : Program) :
    layout.draftBefore program program.size = layout.draft program := by
  simp only [draftBefore, draft, Program.size]
  rw [List.take_of_length_le (by simp)]

theorem framesBefore_zero (layout : Layout) (program : Program) :
    layout.framesBefore program 0 = .empty := rfl

theorem codeBefore_zero (layout : Layout) (program : Program) :
    layout.codeBefore program 0 = layout.prologue := by
  simp [codeBefore, draftBefore, lowerFrom, Draft.records, records_emit]

/-- The compiler goes on from the draft before an address with the phrases from there on. -/
theorem draftBefore_add (layout : Layout) {program : Program} {address : Nat}
    (inside : address ≤ program.size) (count : Nat) :
    layout.draftBefore program (address + count) =
      match (layout.draftBefore program address).fault? with
      | some _ => layout.draftBefore program address
      | none =>
        layout.lowerFrom program ((program.entries.toList.drop address).take count) address
          (layout.draftBefore program address) := by
  have length : (program.entries.toList.take address).length = address := by
    simp only [Program.size] at inside
    simp [inside]
  simp only [draftBefore]
  rw [List.take_add, lowerFrom_append _ _ _ rfl, length, Nat.zero_add]

theorem draftBefore_next {layout : Layout} {program : Program} {address : Nat} {entry : Entry}
    (here : program.entries[address]? = some entry)
    (sound : (layout.draftBefore program address).fault? = none) :
    layout.draftBefore program (address + 1) =
      layout.lowerFrom program [entry] address (layout.draftBefore program address) := by
  have inside : address ≤ program.size := Nat.le_of_lt (Program.lt_size_of_entry here)
  have next : (program.entries.toList.drop address).take 1 = [entry] := by
    rw [List.take_one, List.head?_drop, Array.getElem?_toList, here]
    rfl
  rw [draftBefore_add layout inside, sound, next]

/-- Lowering the whole program meets no fault. -/
structure Compiles (layout : Layout) (program : Program) : Prop where
  laid : ofProgram program = .ok layout
  lowered : (layout.draft program).fault? = none

theorem Compiles.sound {layout : Layout} {program : Program} (compiles : layout.Compiles program)
    {address : Nat} (inside : address ≤ program.size) :
    (layout.draftBefore program address).fault? = none := by
  obtain ⟨count, total⟩ := Nat.exists_eq_add_of_le inside
  have whole := draftBefore_add layout inside count
  have lowered := compiles.lowered
  rw [← total, draftBefore_size] at whole
  cases fault : (layout.draftBefore program address).fault? with
  | none => rfl
  | some found =>
      rw [fault] at whole
      rw [whole, fault] at lowered
      cases lowered

theorem Compiles.draftBefore_succ {layout : Layout} {program : Program}
    (compiles : layout.Compiles program) {address : Nat} {entry : Entry}
    (here : program.entries[address]? = some entry) :
    layout.draftBefore program (address + 1) =
      layout.lowerFrom program [entry] address (layout.draftBefore program address) :=
  draftBefore_next here (compiles.sound (Nat.le_of_lt (Program.lt_size_of_entry here)))

theorem Compiles.skipped {layout : Layout} {program : Program}
    (compiles : layout.Compiles program) {address : Nat} {phrase : Phrase}
    (here : program.entries[address]? = some ⟨phrase, .skipped⟩) :
    layout.framesBefore program (address + 1) = layout.framesBefore program address ∧
      layout.codeBefore program (address + 1) = layout.codeBefore program address := by
  simp only [framesBefore, codeBefore, compiles.draftBefore_succ here]
  exact ⟨rfl, rfl⟩

/-- A statement is lowered with the open blocks before it, and its records are added. -/
theorem Compiles.lowers {layout : Layout} {program : Program}
    (compiles : layout.Compiles program) {address : Nat} {phrase : Phrase} {op : Op}
    (here : program.At address phrase op) :
    ∃ records after,
      layout.Lowers program address (layout.framesBefore program address) op records after ∧
      layout.framesBefore program (address + 1) = after ∧
      layout.codeBefore program (address + 1) =
        layout.codeBefore program address ++ records := by
  have next := compiles.draftBefore_succ here
  have inside : address + 1 ≤ program.size := Program.lt_size_of_entry here
  have sound := compiles.sound inside
  simp only [lowerFrom, Linked.op?] at next
  cases lowered : layout.lower program address phrase
      (layout.draftBefore program address).frames op with
  | error fault =>
      rw [lowered] at next
      rw [next] at sound
      cases sound
  | ok result =>
      obtain ⟨records, after⟩ := result
      rw [lowered] at next
      refine ⟨records, after, lower_eq_ok_iff.1 lowered, ?_, ?_⟩
      · simp only [framesBefore, next]
      · simp only [codeBefore, next, Draft.records, records_emit]

theorem entry_cases {layout : Layout} {program : Program}
    (laid : ofProgram program = .ok layout) {address : Nat} (inside : address < program.size) :
    (∃ phrase, program.entries[address]? = some ⟨phrase, .skipped⟩) ∨
      ∃ phrase op, program.At address phrase op := by
  have here : program.entries[address]? = some program.entries[address] :=
    Array.getElem?_eq_getElem inside
  cases entry : program.entries[address] with
  | mk phrase linked =>
      rw [entry] at here
      cases linked with
      | skipped => exact .inl ⟨phrase, here⟩
      | op op => exact .inr ⟨phrase, op, here⟩
      | broken fault =>
          simp only [ofProgram] at laid
          split at laid
          · cases laid
          · rename_i clean
            have none := Array.findSome?_eq_none_iff.1 clean _ (Array.mem_of_getElem? here)
            simp [Linked.fault?] at none

theorem Compiles.entry_cases {layout : Layout} {program : Program}
    (compiles : layout.Compiles program) {address : Nat} (inside : address < program.size) :
    (∃ phrase, program.entries[address]? = some ⟨phrase, .skipped⟩) ∨
      ∃ phrase op, program.At address phrase op :=
  Layout.entry_cases compiles.laid inside

theorem Compiles.unbroken {layout : Layout} {program : Program}
    (compiles : layout.Compiles program) {address : Nat} {phrase : Phrase} {fault : Fault} :
    program.entries[address]? ≠ some ⟨phrase, .broken fault⟩ := by
  intro here
  rcases compiles.entry_cases (Program.lt_size_of_entry here) with
    ⟨_, skipped⟩ | ⟨_, _, statement⟩
  · rw [here] at skipped
    cases skipped
  · rw [Program.At, here] at statement
    cases statement

theorem Lowers.frames_cases {layout : Layout} {program : Program} {address : Nat}
    {frames after : Stack} {op : Op} {records : List Record}
    (lowers : layout.Lowers program address frames op records after) :
    (∃ slot, op = .whileNonzero slot ∧ after = frames.push (.loop address slot)) ∨
      (∃ slot, op = .ifNonzero slot ∧ after = frames.push (.chain false)) ∨
      (op.keyword.opensBlock = false ∧ op.keyword.closesBlock = true ∧
        ∃ top, frames.frames = top :: after.frames) ∨
      (op.keyword.opensBlock = false ∧ op.keyword.closesBlock = false ∧ after = frames) := by
  cases lowers with
  | clear => exact .inr (.inr (.inr ⟨rfl, rfl, rfl⟩))
  | incr => exact .inr (.inr (.inr ⟨rfl, rfl, rfl⟩))
  | decr => exact .inr (.inr (.inr ⟨rfl, rfl, rfl⟩))
  | openLoop => exact .inl ⟨_, rfl, rfl⟩
  | closeLoop top => exact .inr (.inr (.inl ⟨rfl, rfl, _, Stack.frames_of_top? top⟩))
  | openChain => exact .inr (.inl ⟨_, rfl, rfl⟩)
  | elifBranch => exact .inr (.inr (.inr ⟨rfl, rfl, rfl⟩))
  | elseBranch => exact .inr (.inr (.inr ⟨rfl, rfl, rfl⟩))
  | closeChain top => exact .inr (.inr (.inl ⟨rfl, rfl, _, Stack.frames_of_top? top⟩))

end Layout

end Abacus.Bytecode
