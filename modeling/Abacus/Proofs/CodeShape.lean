import Abacus.Proofs.CodeLayout
import Abacus.Proofs.Coherence
import Abacus.Proofs.OpenBlocks

/-!
The shape of compiled code. The records of each statement fill the room that the layout keeps for
it; jumps go to the start of a record or to the end of the code, never into the prologue; and the
variable of sure jumps is set by the prologue alone. No offset is too large for its field.
-/

namespace Abacus

namespace Bytecode.Layout

variable {layout : Layout} {program : Program}

def recordsAt (layout : Layout) (program : Program) (address : Nat) : List Record :=
  match program.entries[address]? with
  | some ⟨phrase, .op op⟩ =>
    match layout.lower program address phrase (layout.framesBefore program address) op with
    | .ok (records, _) => records
    | .error _ => []
  | _ => []

theorem recordsAt_skipped {address : Nat} {phrase : Phrase}
    (here : program.entries[address]? = some ⟨phrase, .skipped⟩) :
    layout.recordsAt program address = [] := by
  simp [recordsAt, here]

theorem recordsAt_of_lowers {address : Nat} {phrase : Phrase} {op : Op} {records : List Record}
    {after : Stack} (here : program.At address phrase op)
    (lowers : layout.Lowers program address (layout.framesBefore program address) op records
      after) : layout.recordsAt program address = records := by
  rw [Program.At] at here
  have lowered : layout.lower program address phrase (layout.framesBefore program address) op =
      .ok (records, after) := lower_eq_ok_iff.2 lowers
  simp [recordsAt, here, lowered]

theorem Compiles.codeBefore_succ (compiles : layout.Compiles program) {address : Nat}
    (inside : address < program.size) :
    layout.codeBefore program (address + 1) =
      layout.codeBefore program address ++ layout.recordsAt program address := by
  rcases compiles.entry_cases inside with ⟨phrase, here⟩ | ⟨phrase, op, here⟩
  · rw [(compiles.skipped here).2, recordsAt_skipped here, List.append_nil]
  · obtain ⟨records, after, lowers, _, code⟩ := compiles.lowers here
    rw [code, recordsAt_of_lowers here lowers]

theorem Compiles.codeBefore_eq (compiles : layout.Compiles program) {address : Nat}
    (inside : address ≤ program.size) :
    layout.codeBefore program address =
      layout.prologue ++ (List.range address).flatMap (layout.recordsAt program) := by
  induction address with
  | zero => simp [codeBefore_zero]
  | succ address induction =>
      rw [compiles.codeBefore_succ inside, induction (Nat.le_of_succ_le inside),
        List.range_succ, List.flatMap_append, List.append_assoc]
      simp

/-- Where a jump may go: to the start of a record that is not in the prologue, or to the end. -/
structure IsTarget (layout : Layout) (program : Program) (target : Nat) : Prop where
  aligned : target % Record.width = 0
  past : prologueLength program.branches ≤ target
  within : target ≤ layout.offset program.size

theorem Compiles.isTarget_offset (compiles : layout.Compiles program) {address : Nat}
    (inside : address ≤ program.size) : layout.IsTarget program (layout.offset address) := by
  refine ⟨?_, ?_, ?_⟩
  · rw [compiles.offset_eq inside]
    exact Nat.mul_mod_left _ _
  · rw [compiles.eq_natural, offset_natural inside]
    exact Nat.le_add_right _ _
  · rw [compiles.eq_natural, offset_natural inside, offset_natural (Nat.le_refl _)]
    exact Nat.add_le_add_left (program.codeSpan_mono inside) _

/-- The start of each record of a statement, and what follows the last one, is a target. -/
theorem Compiles.isTarget_within (compiles : layout.Compiles program) {address count : Nat}
    {phrase : Phrase} {op : Op} (here : program.At address phrase op)
    (within : count * Record.width ≤ op.codeLength) :
    layout.IsTarget program (layout.offset address + count * Record.width) := by
  have inside : address < program.size := Program.lt_size_of_entry here
  have own := compiles.isTarget_offset (Nat.le_of_lt inside)
  have next := (compiles.isTarget_offset inside).within
  rw [compiles.offset_succ here] at next
  refine ⟨?_, Nat.le_trans own.past (Nat.le_add_right _ _), by omega⟩
  rw [Nat.add_mul_mod_self_right]
  exact own.aligned

theorem Compiles.isTarget_entryPoint (compiles : layout.Compiles program) {address : Nat}
    {phrase : Phrase} {op : Op} (here : program.At address phrase op) :
    layout.IsTarget program (layout.entryPoint program address) := by
  rw [entryPoint_of_at here]
  split
  · rename_i branch
    have room : 1 * Record.width ≤ op.codeLength := by
      cases op <;> simp_all [Statement.keyword, Statement.codeLength, Record.width]
    have target := compiles.isTarget_within here room
    rwa [Nat.one_mul] at target
  · exact compiles.isTarget_offset (Nat.le_of_lt (Program.lt_size_of_entry here))

theorem Compiles.toNat_target (compiles : layout.Compiles program) {target : Nat}
    (fine : layout.IsTarget program target) : target.toUInt32.toNat = target :=
  toNat_toUInt32 (Nat.le_trans fine.within (compiles.offset_le (Nat.le_refl _)))

structure Allows (layout : Layout) (program : Program) (record : Record) : Prop where
  slot : record.slot.toNat < program.registerCount
  jump : record.opcode = .goto → layout.IsTarget program record.target.toNat
  plain : record.opcode ≠ .goto → record.target = 0

theorem Compiles.allows_goto (compiles : layout.Compiles program) {slot : Slot} {target : Nat}
    (register : slot.toNat < program.registerCount) (fine : layout.IsTarget program target) :
    layout.Allows program (.goto slot target.toUInt32) := by
  refine ⟨register, ?_, ?_⟩
  · intro _
    rw [Record.goto, compiles.toNat_target fine]
    exact fine
  · intro other
    exact absurd rfl other

theorem Compiles.always_register (compiles : layout.Compiles program) {always : Slot}
    (sure : layout.always? = some always) : always.toNat < program.registerCount := by
  obtain ⟨branching, place⟩ := compiles.toNat_always sure
  rw [Program.registerCount, branching, place]
  exact Nat.lt_succ_self _

theorem operand_register (linked : program.WellLinked) {address : Nat} {phrase : Phrase} {op : Op}
    {slot : Slot} (here : program.At address phrase op) (operand : op.operand? = some slot) :
    slot.toNat < program.registerCount :=
  Nat.lt_of_lt_of_le (linked.operand_lt here operand) (Nat.le_add_right _ _)

theorem Compiles.operand_ne_always (compiles : layout.Compiles program)
    (linked : program.WellLinked) {address : Nat} {phrase : Phrase} {op : Op} {slot : Slot}
    (here : program.At address phrase op) (operand : op.operand? = some slot) :
    layout.always? ≠ some slot := by
  intro sure
  have own := linked.operand_lt here operand
  have other := (compiles.toNat_always sure).2
  omega

/-- The records of a statement are allowed, and those that are no jumps leave the variable of
sure jumps alone. -/
theorem Compiles.allows_lowered (compiles : layout.Compiles program)
    (linked : program.WellLinked) {address : Nat} {phrase : Phrase} {op : Op}
    {records : List Record} {after : Stack} (here : program.At address phrase op)
    (lowers : layout.Lowers program address (layout.framesBefore program address) op records
      after) :
    ∀ record ∈ records, layout.Allows program record ∧
      (record.opcode ≠ .goto → layout.always? ≠ some record.slot) := by
  have inside : address < program.size := Program.lt_size_of_entry here
  have jump : ∀ {slot : Slot} {target : Nat}, slot.toNat < program.registerCount →
      layout.IsTarget program target →
      layout.Allows program (.goto slot target.toUInt32) ∧
        ((Record.goto slot target.toUInt32).opcode ≠ .goto → layout.always? ≠ some slot) := by
    intro slot target register fine
    exact ⟨compiles.allows_goto register fine, fun other => absurd rfl other⟩
  have value : ∀ {slot : Slot}, op.operand? = some slot → ∀ opcode ≠ Opcode.goto,
      layout.Allows program ⟨opcode, slot, 0⟩ ∧
        (opcode ≠ Opcode.goto → layout.always? ≠ some slot) := by
    intro slot operand opcode other
    exact ⟨⟨operand_register linked here operand, fun same => absurd same other, fun _ => rfl⟩,
      fun _ => compiles.operand_ne_always linked here operand⟩
  have entry : ∀ {targets : List Keyword} {found : Nat},
      program.outline.next? address targets = some found →
      layout.IsTarget program (layout.entryPoint program found) := by
    intro targets found sought
    obtain ⟨_, _, there, _⟩ := compiles.at_of_next? linked inside sought
    exact compiles.isTarget_entryPoint there
  have chainEnd : ∀ {targets : List Keyword} {found : Nat},
      program.outline.next? address targets = some found →
      layout.IsTarget program (layout.offset found) := by
    intro targets found sought
    obtain ⟨_, bounded, _⟩ := compiles.frames_of_next? linked inside sought
    exact compiles.isTarget_offset (Nat.le_of_lt bounded)
  intro record member
  cases lowers with
  | clear =>
      obtain rfl := List.mem_singleton.1 member
      exact value rfl .clear (by decide)
  | incr =>
      obtain rfl := List.mem_singleton.1 member
      exact value rfl .inc (by decide)
  | decr =>
      obtain rfl := List.mem_singleton.1 member
      exact value rfl .dec (by decide)
  | openLoop room => cases member
  | closeLoop top =>
      -- The slot is that of the `while` which opened the loop, not one of this statement.
      obtain ⟨earlier, ⟨_, loop⟩, _⟩ :=
        compiles.loop_opened (Nat.le_of_lt inside) [] (Stack.frames_of_top? top)
      obtain rfl := List.mem_singleton.1 member
      exact jump (operand_register linked loop rfl)
        (compiles.isTarget_offset (by omega))
  | openChain room sure found =>
      rcases List.mem_cons.1 member with rfl | rest
      · exact jump (operand_register linked here rfl)
          (compiles.isTarget_within here (Nat.le_refl _))
      · obtain rfl := List.mem_singleton.1 rest
        exact jump (compiles.always_register sure) (entry found)
  | elifBranch top sure last found =>
      rcases List.mem_cons.1 member with rfl | rest
      · exact jump (compiles.always_register sure) (chainEnd last)
      · rcases List.mem_cons.1 rest with rfl | rest
        · exact jump (operand_register linked here rfl)
            (compiles.isTarget_within here (Nat.le_refl _))
        · obtain rfl := List.mem_singleton.1 rest
          exact jump (compiles.always_register sure) (entry found)
  | elseBranch top sure last =>
      obtain rfl := List.mem_singleton.1 member
      exact jump (compiles.always_register sure) (chainEnd last)
  | closeChain top => cases member

theorem Compiles.allows_recordsAt (compiles : layout.Compiles program)
    (linked : program.WellLinked) {address : Nat} (inside : address < program.size) :
    ∀ record ∈ layout.recordsAt program address, layout.Allows program record ∧
      (record.opcode ≠ .goto → layout.always? ≠ some record.slot) := by
  rcases compiles.entry_cases inside with ⟨phrase, here⟩ | ⟨phrase, op, here⟩
  · rw [recordsAt_skipped here]
    simp
  · obtain ⟨records, after, lowers, _, _⟩ := compiles.lowers here
    rw [recordsAt_of_lowers here lowers]
    exact compiles.allows_lowered linked here lowers

theorem Compiles.allows_prologue (compiles : layout.Compiles program) :
    ∀ record ∈ layout.prologue, layout.Allows program record := by
  intro record member
  cases sure : layout.always? with
  | none => simp [prologue, sure] at member
  | some always =>
      have register := compiles.always_register sure
      simp only [prologue, sure, List.mem_cons, List.not_mem_nil, or_false] at member
      rcases member with rfl | rfl
      · exact ⟨register, (fun same => by cases same), fun _ => rfl⟩
      · exact ⟨register, (fun same => by cases same), fun _ => rfl⟩

/-- What holds of the code of a program, record by record and statement by statement. -/
structure WellShaped (layout : Layout) (program : Program) (container : Container) : Prop where
  /-- The code is the prologue and the records of the statements, in order. -/
  whole : container.code =
    layout.prologue ++ (List.range program.size).flatMap (layout.recordsAt program)
  /-- The records of a statement take the bytes between its offset and the next one. -/
  placed : ∀ address < program.size, ∃ before after,
    container.code = before ++ layout.recordsAt program address ++ after ∧
      before.length * Record.width = layout.offset address ∧
      (before ++ layout.recordsAt program address).length * Record.width =
        layout.offset (address + 1)
  length : container.codeLength = (if program.branches then 14 else 0) +
    (program.entries.toList.map fun entry => entry.linked.codeLength).sum
  slots : ∀ record ∈ container.code, record.slot.toNat < container.varCount.toNat
  jumps : ∀ record ∈ container.code, record.opcode = .goto →
    record.target.toNat % 7 = 0 ∧ (if program.branches then 14 else 0) ≤ record.target.toNat ∧
      record.target.toNat ≤ container.codeLength
  plain : ∀ record ∈ container.code, record.opcode ≠ .goto → record.target = 0
  /-- The sums that make the targets of jumps stay below the size of a target. -/
  sums : ∀ address phrase op, program.At address phrase op →
    (op.keyword = .ifNonzero → layout.offset address + 14 < UInt32.size) ∧
      (op.keyword = .elifNonzero → layout.offset address + 21 < UInt32.size) ∧
      (op.keyword = .elifNonzero ∨ op.keyword = .elseBranch →
        layout.offset address + 7 < UInt32.size)
  /-- The variable of sure jumps is the one after the program's own, and only the prologue sets
  it. -/
  sure : program.branches = true → ∃ always rest,
    container.code = .clear always :: .inc always :: rest ∧
      (∀ record ∈ rest, record.slot = always → record.opcode = .goto) ∧
      always.toNat = program.slots.size ∧
      (∀ name, program.slots.get? name ≠ some always) ∧
      ∀ address phrase op, program.At address phrase op → op.operand? ≠ some always
  registers : container.varCount.toNat =
    program.slots.size + if program.branches then 1 else 0
  symbols : ∀ index : Nat,
    container.symbols[index]?.map (fun symbol => (symbol.1.toNat, symbol.2)) =
      program.slots.names[index]?.map fun name => (index, name)

theorem Compiles.placed (compiles : layout.Compiles program) {address : Nat}
    (inside : address < program.size) :
    ∃ after, layout.codeBefore program program.size =
        layout.codeBefore program address ++ layout.recordsAt program address ++ after ∧
      (layout.codeBefore program address).length * Record.width = layout.offset address ∧
      (layout.codeBefore program address ++ layout.recordsAt program address).length *
        Record.width = layout.offset (address + 1) := by
  obtain ⟨after, whole⟩ := compiles.codeBefore_mono inside (Nat.le_refl _)
  rw [compiles.codeBefore_succ inside] at whole
  refine ⟨after, whole.symm, (compiles.offset_eq (Nat.le_of_lt inside)).symm, ?_⟩
  rw [← compiles.codeBefore_succ inside]
  exact (compiles.offset_eq inside).symm

/-- The sums of an offset and the length of some records that lowering a statement makes. -/
theorem Compiles.sums_lt (compiles : layout.Compiles program) {address : Nat} {phrase : Phrase}
    {op : Op} (here : program.At address phrase op) :
    (op.keyword = .ifNonzero → layout.offset address + 14 < UInt32.size) ∧
      (op.keyword = .elifNonzero → layout.offset address + 21 < UInt32.size) ∧
      (op.keyword = .elifNonzero ∨ op.keyword = .elseBranch →
        layout.offset address + 7 < UInt32.size) := by
  have inside : address < program.size := Program.lt_size_of_entry here
  have next := compiles.offset_le inside
  rw [compiles.offset_succ here] at next
  simp only [codeLimit] at next
  simp only [UInt32.size]
  cases op <;>
    simp only [Statement.keyword, Statement.codeLength, Record.width, reduceCtorEq, or_self,
      or_true, true_or, false_implies, true_implies, true_and, and_true] at next ⊢ <;>
    omega

theorem Compiles.prologue_of_branches (compiles : layout.Compiles program)
    (branching : program.branches = true) :
    ∃ always, layout.always? = some always ∧ layout.prologue = [.clear always, .inc always] := by
  refine ⟨program.slots.size.toUInt16, ?_⟩
  rw [compiles.eq_natural]
  simp [natural, prologue, branching]

end Bytecode.Layout

namespace Program

open Bytecode Bytecode.Layout

theorem getElem?_symbols {program : Program} (linked : program.WellLinked) (index : Nat) :
    program.symbols[index]?.map (fun symbol => (symbol.1.toNat, symbol.2)) =
      program.slots.names[index]?.map fun name => (index, name) := by
  simp only [symbols, List.getElem?_map, List.getElem?_zipIdx, Option.map_map, Nat.zero_add,
    Array.getElem?_toList]
  cases held : program.slots.names[index]? with
  | none => rfl
  | some name =>
      have inside : index < program.slots.size := (Array.getElem?_eq_some_iff.1 held).1
      have room := linked.sound.fits
      have small : index % 65536 = index := by
        simp only [Slots.capacity] at room
        omega
      simp [small]

/-- The code of a program that compiles has the shape that its layout says. -/
theorem wellShaped_of_compile {phrases : Array Phrase} {container : Container}
    (compiled : (ofPhrases phrases).compile = .ok container) :
    ∃ layout, Layout.ofProgram (ofPhrases phrases) = .ok layout ∧
      layout.WellShaped (ofPhrases phrases) container := by
  have linked := wellLinked_ofPhrases phrases
  obtain ⟨layout, compiles, code, count, symbols⟩ := compiles_of_compile linked compiled
  have whole := compiles.codeBefore_eq (Nat.le_refl _)
  rw [← code] at whole
  have length : container.codeLength = layout.offset (ofPhrases phrases).size := by
    rw [Container.codeLength, code, compiles.offset_eq (Nat.le_refl _)]
  have allowed : ∀ record ∈ container.code, layout.Allows (ofPhrases phrases) record := by
    intro record member
    rw [whole, List.mem_append, List.mem_flatMap] at member
    rcases member with first | ⟨address, inside, own⟩
    · exact compiles.allows_prologue record first
    · exact (compiles.allows_recordsAt linked (List.mem_range.1 inside) record own).1
  refine ⟨layout, compiles.laid, ?_⟩
  exact {
    whole
    placed := by
      intro address inside
      obtain ⟨after, split, start, stop⟩ := compiles.placed inside
      exact ⟨_, after, code.trans split, start, stop⟩
    length := by
      rw [length, compiles.eq_natural, offset_natural (Nat.le_refl _), codeSpan, size,
        List.take_of_length_le (by simp)]
      rfl
    slots := by
      intro record member
      rw [count]
      exact (allowed record member).slot
    jumps := by
      intro record member jump
      have target := (allowed record member).jump jump
      rw [length]
      exact ⟨target.aligned, target.past, target.within⟩
    plain := by
      intro record member other
      exact (allowed record member).plain other
    sums := by
      intro address phrase op here
      exact compiles.sums_lt here
    sure := by
      intro branching
      obtain ⟨always, sure, prologue⟩ := compiles.prologue_of_branches branching
      have place := (compiles.toNat_always sure).2
      refine ⟨always, _, whole.trans (by rw [prologue]; rfl), ?_, place, ?_, ?_⟩
      · intro record member same
        obtain ⟨address, inside, own⟩ := List.mem_flatMap.1 member
        by_contra other
        have spared := (compiles.allows_recordsAt linked (List.mem_range.1 inside) record own).2
        exact spared other (same ▸ sure)
      · intro name found
        have inside := Slots.Sound.lt_size ((linked.sound.index_iff _ _).1 found)
        omega
      · intro address phrase op here operand
        exact compiles.operand_ne_always linked here operand sure
    registers := count
    symbols := by
      intro index
      rw [symbols]
      exact getElem?_symbols linked index }

theorem wellShaped_countdown :
    ∃ container layout, (ofPhrases countdown).compile = .ok container ∧
      Layout.ofProgram (ofPhrases countdown) = .ok layout ∧
      layout.WellShaped (ofPhrases countdown) container := by
  obtain ⟨container, compiled⟩ := compile_countdown
  obtain ⟨layout, laid, shaped⟩ := wellShaped_of_compile compiled
  exact ⟨container, layout, compiled, laid, shaped⟩

end Program

end Abacus
