import Mathlib.Algebra.Ring.Nat
import Mathlib.Data.List.Induction
import Mathlib.Tactic.SplitIfs
import Abacus.Proofs.Linking
import Abacus.Proofs.Lowering

/-!
Where the code of a program lies. A layout exists exactly for a program without broken phrases
that has room for its variables and its code; the offset of a phrase is the length of the code
lowered before it; and the records of a statement stand in the code at its offset.
-/

namespace Abacus

namespace Program

def branches (program : Program) : Bool := program.entries.any fun entry => entry.linked.branches

def codeSpan (program : Program) (address : Nat) : Nat :=
  ((program.entries.toList.take address).map fun entry => entry.linked.codeLength).sum

theorem codeSpan_succ {program : Program} {address : Nat} {entry : Entry}
    (here : program.entries[address]? = some entry) :
    program.codeSpan (address + 1) = program.codeSpan address + entry.linked.codeLength := by
  have next : program.entries.toList[address]? = some entry := by
    rw [Array.getElem?_toList, here]
  simp [codeSpan, List.take_add_one, next]

theorem codeSpan_mono (program : Program) {early late : Nat} (before : early ≤ late) :
    program.codeSpan early ≤ program.codeSpan late := by
  obtain ⟨count, rfl⟩ := Nat.exists_eq_add_of_le before
  simp [codeSpan, List.take_add]

end Program

namespace Bytecode.Layout

open Abacus.Program

/-- The layout that a program has if it has one. -/
def natural (program : Program) : Layout :=
  let placed := program.entries.foldl place (#[], prologueLength program.branches)
  { always? := if program.branches then some program.slots.size.toUInt16 else none
    offsets := placed.1.push placed.2 }

theorem foldl_place (entries : List Entry) (start : Nat) :
    (entries.foldl place (#[], start)).2 =
        start + (entries.map fun entry => entry.linked.codeLength).sum ∧
      (entries.foldl place (#[], start)).1.size = entries.length ∧
      ∀ address < entries.length,
        (entries.foldl place (#[], start)).1[address]? =
          some (start + ((entries.take address).map fun entry => entry.linked.codeLength).sum) := by
  induction entries using List.reverseRecOn with
  | nil => simp
  | append_singleton entries entry induction =>
      obtain ⟨finish, size, offsets⟩ := induction
      rw [List.foldl_append, List.foldl_cons, List.foldl_nil]
      simp only [place]
      refine ⟨?_, ?_, ?_⟩
      · rw [finish]
        simp
        omega
      · simp [size]
      · intro address bounded
        rw [List.length_append, List.length_singleton] at bounded
        by_cases last : address = entries.length
        · subst last
          rw [← size, Array.getElem?_push_size, finish, size]
          simp
        · have earlier : address < entries.length := by omega
          rw [Array.getElem?_push, size, if_neg last, offsets address earlier,
            List.take_append_of_le_length (Nat.le_of_lt earlier)]

theorem ofProgram_eq (program : Program) :
    ofProgram program =
      match program.firstFault? with
      | some fault => .error fault
      | none =>
        if program.branches = true ∧ Slots.capacity ≤ program.slots.size then
          .error { kind := .overflow, detail := .tooManyVariables }
        else if codeLimit < prologueLength program.branches + program.codeSpan program.size then
          .error { kind := .overflow, detail := .programTooLarge }
        else .ok (natural program) := by
  have finish := (foldl_place program.entries.toList (prologueLength program.branches)).1
  rw [Array.foldl_toList] at finish
  have whole : program.codeSpan program.size =
      (program.entries.toList.map fun entry => entry.linked.codeLength).sum := by
    simp only [Program.codeSpan, Program.size]
    rw [List.take_of_length_le (by simp)]
  rw [whole, ← finish]
  unfold ofProgram
  cases program.firstFault? with
  | some fault => rfl
  | none =>
      simp only [Bool.and_eq_true, decide_eq_true_eq]
      rfl

theorem ofProgram_eq_ok_iff {program : Program} {layout : Layout} :
    ofProgram program = .ok layout ↔
      program.firstFault? = none ∧
        (program.branches = true → program.slots.size < Slots.capacity) ∧
        prologueLength program.branches + program.codeSpan program.size ≤ codeLimit ∧
        layout = natural program := by
  rw [ofProgram_eq]
  cases program.firstFault? with
  | some fault => simp
  | none =>
      have room : (program.branches = true → program.slots.size < Slots.capacity) ↔
          ¬ (program.branches = true ∧ Slots.capacity ≤ program.slots.size) := by
        rw [not_and, Nat.not_le]
      have fits : prologueLength program.branches + program.codeSpan program.size ≤ codeLimit ↔
          ¬ codeLimit < prologueLength program.branches + program.codeSpan program.size :=
        Nat.not_lt.symm
      rw [room, fits]
      split_ifs with crowded long
      · simp [crowded]
      · simp [long]
      · simp only [Except.ok.injEq, crowded, long, not_false_eq_true, true_and]
        exact eq_comm

theorem offset_natural {program : Program} {address : Nat} (inside : address ≤ program.size) :
    (natural program).offset address =
      prologueLength program.branches + program.codeSpan address := by
  obtain ⟨finish, size, offsets⟩ :=
    foldl_place program.entries.toList (prologueLength program.branches)
  rw [Array.length_toList] at size offsets
  rw [Array.foldl_toList] at finish size offsets
  simp only [offset, natural, Array.getD_eq_getD_getElem?, Program.codeSpan]
  by_cases last : address = program.entries.size
  · rw [Array.getElem?_push, size, if_pos last, finish, last, List.take_of_length_le (by simp)]
    rfl
  · have earlier : address < program.entries.size := by
      simp only [Program.size] at inside
      omega
    rw [Array.getElem?_push, size, if_neg last, offsets address earlier]
    rfl

theorem length_prologue_natural (program : Program) :
    (natural program).prologue.length * Record.width = prologueLength program.branches := by
  cases branching : program.branches <;> simp [natural, prologue, branching, prologueLength]

variable {layout : Layout} {program : Program}

theorem Compiles.eq_natural (compiles : layout.Compiles program) : layout = natural program :=
  (ofProgram_eq_ok_iff.1 compiles.laid).2.2.2

theorem Compiles.offset_eq (compiles : layout.Compiles program) {address : Nat}
    (inside : address ≤ program.size) :
    layout.offset address = (layout.codeBefore program address).length * Record.width := by
  have natural := compiles.eq_natural
  induction address with
  | zero =>
      rw [codeBefore_zero, natural, offset_natural (Nat.zero_le _), length_prologue_natural]
      simp [Program.codeSpan]
  | succ address induction =>
      have before := induction (Nat.le_of_succ_le inside)
      rw [natural, offset_natural (Nat.le_of_succ_le inside), ← natural] at before
      rw [natural, offset_natural inside, ← natural]
      rcases compiles.entry_cases inside with ⟨phrase, here⟩ | ⟨phrase, op, here⟩
      · rw [Program.codeSpan_succ here, ← Nat.add_assoc, before, (compiles.skipped here).2]
        rfl
      · obtain ⟨records, after, lowers, _, code⟩ := compiles.lowers here
        rw [Program.codeSpan_succ here, ← Nat.add_assoc, before, code, List.length_append,
          Nat.add_mul, lowers.length]
        rfl

theorem Compiles.offset_le (compiles : layout.Compiles program) {address : Nat}
    (inside : address ≤ program.size) : layout.offset address ≤ codeLimit := by
  obtain ⟨_, _, fits, rfl⟩ := ofProgram_eq_ok_iff.1 compiles.laid
  rw [offset_natural inside]
  exact Nat.le_trans (Nat.add_le_add_left (program.codeSpan_mono inside) _) fits

theorem Compiles.offset_skipped (compiles : layout.Compiles program) {address : Nat}
    {phrase : Phrase} (here : program.entries[address]? = some ⟨phrase, .skipped⟩) :
    layout.offset (address + 1) = layout.offset address := by
  have inside : address < program.size := Program.lt_size_of_entry here
  rw [compiles.offset_eq inside, compiles.offset_eq (Nat.le_of_lt inside),
    (compiles.skipped here).2]

theorem Compiles.offset_succ (compiles : layout.Compiles program) {address : Nat}
    {phrase : Phrase} {op : Op} (here : program.At address phrase op) :
    layout.offset (address + 1) = layout.offset address + op.codeLength := by
  have inside : address < program.size := Program.lt_size_of_entry here
  obtain ⟨records, _, lowers, _, code⟩ := compiles.lowers here
  rw [compiles.offset_eq inside, compiles.offset_eq (Nat.le_of_lt inside), code,
    List.length_append, Nat.add_mul, lowers.length]

theorem Compiles.codeBefore_mono (compiles : layout.Compiles program) {early late : Nat}
    (before : early ≤ late) (inside : late ≤ program.size) :
    layout.codeBefore program early <+: layout.codeBefore program late := by
  induction before with
  | refl => exact List.prefix_rfl
  | @step late before induction =>
      have sofar := induction (Nat.le_of_succ_le inside)
      rcases compiles.entry_cases inside with ⟨phrase, here⟩ | ⟨phrase, op, here⟩
      · rw [(compiles.skipped here).2]
        exact sofar
      · obtain ⟨records, _, _, _, code⟩ := compiles.lowers here
        rw [code]
        exact sofar.trans (List.prefix_append _ _)

/-- The records of a statement stand in the whole code at its offset. -/
theorem Compiles.record_at (compiles : layout.Compiles program) {address index : Nat}
    {phrase : Phrase} {op : Op} {records : List Record} {record : Record}
    (here : program.At address phrase op)
    (code : layout.codeBefore program (address + 1) =
      layout.codeBefore program address ++ records)
    (found : records[index]? = some record) :
    (layout.codeBefore program program.size)[
        (layout.offset address + index * Record.width) / Record.width]? = some record := by
  have inside : address < program.size := Program.lt_size_of_entry here
  have place : (layout.offset address + index * Record.width) / Record.width =
      (layout.codeBefore program address).length + index := by
    rw [compiles.offset_eq (Nat.le_of_lt inside), ← Nat.add_mul]
    exact Nat.mul_div_cancel _ (by decide)
  have own : (layout.codeBefore program (address + 1))[
      (layout.codeBefore program address).length + index]? = some record := by
    rw [code, List.getElem?_append_right (Nat.le_add_right _ _), Nat.add_sub_cancel_left]
    exact found
  obtain ⟨rest, whole⟩ := compiles.codeBefore_mono inside (Nat.le_refl _)
  rw [place, ← whole, List.getElem?_append_left (List.getElem?_eq_some_iff.1 own).1]
  exact own

theorem Compiles.length_code_le (compiles : layout.Compiles program) :
    (layout.codeBefore program program.size).length * Record.width ≤ codeLimit := by
  rw [← compiles.offset_eq (Nat.le_refl _)]
  exact compiles.offset_le (Nat.le_refl _)

theorem isSome_always?_natural (program : Program) :
    (natural program).always?.isSome = program.branches := by
  cases branching : program.branches <;> simp [natural, branching]

theorem toNat_toUInt32 {offset : Nat} (bounded : offset ≤ codeLimit) :
    offset.toUInt32.toNat = offset := by
  simp only [codeLimit] at bounded
  simp only [Nat.toUInt32_eq, UInt32.toNat_ofNat']
  omega

/-- The variable of sure jumps is the one after the program's own. -/
theorem Compiles.toNat_always (compiles : layout.Compiles program) {always : Slot}
    (sure : layout.always? = some always) :
    program.branches = true ∧ always.toNat = program.slots.size := by
  obtain ⟨_, room, _, rfl⟩ := ofProgram_eq_ok_iff.1 compiles.laid
  cases branching : program.branches with
  | false => simp [natural, branching] at sure
  | true =>
      have bounded := room branching
      simp only [Slots.capacity] at bounded
      simp only [natural, branching, if_true, Option.some.injEq] at sure
      refine ⟨rfl, ?_⟩
      rw [← sure]
      simp only [Nat.toUInt16_eq, UInt16.toNat_ofNat']
      omega

theorem entryPoint_of_at {address : Nat} {phrase : Phrase} {op : Op}
    (here : program.At address phrase op) :
    layout.entryPoint program address =
      if op.keyword = .elifNonzero ∨ op.keyword = .elseBranch
      then layout.offset address + Record.width else layout.offset address := by
  rw [Program.At] at here
  have linked : program.linkedAt address = .op op := by simp [Program.linkedAt, here]
  rw [entryPoint, linked, Linked.op?]
  cases op <;> simp [Statement.keyword]

theorem Compiles.entryPoint_le (compiles : layout.Compiles program) {address : Nat}
    {phrase : Phrase} {op : Op} (here : program.At address phrase op) :
    layout.entryPoint program address ≤ codeLimit := by
  have inside : address < program.size := Program.lt_size_of_entry here
  have next := compiles.offset_le inside
  rw [compiles.offset_succ here] at next
  have room : op.keyword = .elifNonzero ∨ op.keyword = .elseBranch →
      Record.width ≤ op.codeLength := by
    cases op <;> simp [Statement.keyword, Statement.codeLength, Record.width]
  rw [entryPoint_of_at here]
  split
  · rename_i branch
    have := room branch
    omega
  · omega

end Bytecode.Layout

namespace Program

open Bytecode

def registerCount (program : Program) : Nat :=
  program.slots.size + if program.branches then 1 else 0

theorem registerCount_lt {program : Program} (linked : program.WellLinked)
    (room : program.branches = true → program.slots.size < Slots.capacity) :
    program.registerCount < UInt16.size := by
  have fits := linked.sound.fits
  simp only [registerCount, Slots.capacity, UInt16.size] at *
  cases branching : program.branches with
  | true =>
      have := room branching
      simp only [if_true]
      omega
  | false =>
      simp only [Bool.false_eq_true, if_false]
      omega

/-- Compilation gives the lowered code, with one register for each variable and the names of the
program's own. -/
theorem compile_of_compiles {program : Program} {layout : Layout} (linked : program.WellLinked)
    (compiles : layout.Compiles program) :
    ∃ container, program.compile = .ok container ∧
      container.code = layout.codeBefore program program.size ∧
      container.varCount.toNat = program.registerCount ∧
      container.symbols = program.symbols := by
  obtain ⟨_, room, _, natural⟩ := Layout.ofProgram_eq_ok_iff.1 compiles.laid
  have count := registerCount_lt linked room
  have fits := compiles.length_code_le
  have sure : layout.always?.isSome = program.branches := by
    rw [natural, Layout.isSome_always?_natural]
  have code : (layout.draft program).emissions.toList.map Emission.record =
      layout.codeBefore program program.size := by
    rw [Layout.codeBefore, Layout.draftBefore_size]
    rfl
  refine ⟨⟨program.registerCount.toUInt16, _, program.symbols, fits⟩, ?_, rfl, ?_, rfl⟩
  · simp only [registerCount] at count ⊢
    simp only [compile, compiles.laid, compiles.lowered, sure, if_pos count, Container.make, code,
      dif_pos fits]
  · exact Nat.mod_eq_of_lt count

/-- All that compilation can give: the fault of the layout, that of a statement, or the code. -/
theorem compile_cases {program : Program} (linked : program.WellLinked) :
    (∃ fault, Layout.ofProgram program = .error fault ∧ program.compile = .error fault) ∨
      (∃ layout fault, Layout.ofProgram program = .ok layout ∧
        (layout.draft program).fault? = some fault ∧ program.compile = .error fault) ∨
      (∃ layout container, Layout.Compiles layout program ∧ program.compile = .ok container) := by
  cases laid : Layout.ofProgram program with
  | error fault => exact .inl ⟨fault, rfl, by simp [compile, laid]⟩
  | ok layout =>
      cases lowered : (layout.draft program).fault? with
      | some fault =>
          exact .inr (.inl ⟨layout, fault, rfl, lowered, by simp [compile, laid, lowered]⟩)
      | none =>
          have compiles : layout.Compiles program := ⟨laid, lowered⟩
          obtain ⟨container, compiled, _⟩ := compile_of_compiles linked compiles
          exact .inr (.inr ⟨layout, container, compiles, compiled⟩)

theorem compiles_of_compile {program : Program} {container : Container}
    (linked : program.WellLinked) (compiled : program.compile = .ok container) :
    ∃ layout, Layout.Compiles layout program ∧
      container.code = layout.codeBefore program program.size ∧
      container.varCount.toNat = program.registerCount ∧
      container.symbols = program.symbols := by
  rcases compile_cases linked with ⟨_, _, refused⟩ | ⟨_, _, _, _, refused⟩ |
    ⟨layout, _, compiles, _⟩
  · simp [refused] at compiled
  · simp [refused] at compiled
  · obtain ⟨other, given, shape⟩ := compile_of_compiles linked compiles
    rw [compiled] at given
    cases given
    exact ⟨layout, compiles, shape⟩

end Program

end Abacus
