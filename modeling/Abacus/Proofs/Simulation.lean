import Mathlib.Tactic.Tauto
import Abacus.Proofs.Coherence
import Abacus.Proofs.Runs
import Abacus.Proofs.Seeking
import Abacus.Proofs.Ticks

/-!
The compiled code does what the program does. A run and the machine go side by side: the machine
stands at the code of the phrase the run has come to, except inside a chain of branches, where
the run hops from branch to branch while the machine has already jumped to the end of the chain,
or has already passed the jump in front of the next branch. Main statement: any row of steps of the
run is followed by a row of ticks, not much shorter, that ends at the same point.
-/

namespace Abacus.Bytecode.Layout

variable {layout : Layout} {program : Program} {state after : State} {machine : Machine}

section Ticks

variable {address : Nat} {phrase : Phrase} {op : Op} {records : List Record}

theorem Compiles.tick_settle (compiles : layout.Compiles program)
    (here : program.At address phrase op)
    (code : layout.codeBefore program (address + 1) =
      layout.codeBefore program address ++ records)
    {record : Record} (found : records[0]? = some record)
    (stands : machine.offset = layout.offset address) {result : Option Int}
    (computed : (record.opcode = .clear ∧ result = some 0) ∨
      (record.opcode = .inc ∧ result = Value.succ? (machine.register record.slot)) ∨
      (record.opcode = .dec ∧ result = Value.pred? (machine.register record.slot))) :
    machine.tick (layout.codeBefore program program.size) =
      machine.settle record.slot result := by
  have own := compiles.record_at here code found
  rw [Nat.zero_mul, Nat.add_zero, ← stands] at own
  exact Machine.tick_settle machine own computed

theorem Compiles.goes_past (compiles : layout.Compiles program)
    (here : program.At address phrase op)
    (code : layout.codeBefore program (address + 1) =
      layout.codeBefore program address ++ records)
    {slot : Slot} {target : UInt32} (index : Nat)
    (found : records[index]? = some (.goto slot target))
    (stands : machine.offset = layout.offset address + index * Record.width)
    (zero : machine.register slot = 0) :
    Machine.Goes (layout.codeBefore program program.size) machine
      { machine with offset := layout.offset address + (index + 1) * Record.width } := by
  have own := compiles.record_at here code found
  rw [← stands] at own
  have goes := Machine.goes_past own zero
  rw [stands, Nat.add_assoc, ← Nat.succ_mul] at goes
  exact goes

theorem Compiles.goes_to (compiles : layout.Compiles program)
    (here : program.At address phrase op)
    (code : layout.codeBefore program (address + 1) =
      layout.codeBefore program address ++ records)
    {slot : Slot} {target : Nat} (index : Nat)
    (found : records[index]? = some (.goto slot target.toUInt32))
    (bounded : target ≤ codeLimit)
    (stands : machine.offset = layout.offset address + index * Record.width)
    (nonzero : machine.register slot ≠ 0) :
    Machine.Goes (layout.codeBefore program program.size) machine
      { machine with offset := target } := by
  have own := compiles.record_at here code found
  rw [← stands] at own
  have goes := Machine.goes_to own nonzero
  rw [toNat_toUInt32 bounded] at goes
  exact goes

end Ticks

/-- The machine's registers hold the variables of a run, and the variable of sure jumps is one. -/
structure Registers (layout : Layout) (program : Program) (vars : Variables) (machine : Machine) :
    Prop where
  cells : vars.size = program.slots.size
  size : machine.registers.size = program.registerCount
  own : ∀ slot : Slot, slot.toNat < program.slots.size → machine.register slot = vars.fetch slot
  sure : ∀ always, layout.always? = some always → machine.register always = 1

theorem Registers.jump {vars : Variables} (registers : layout.Registers program vars machine)
    (offset : Nat) : layout.Registers program vars { machine with offset } :=
  ⟨registers.cells, registers.size, registers.own, registers.sure⟩

theorem Registers.set (compiles : layout.Compiles program) {vars : Variables}
    (registers : layout.Registers program vars machine) {slot : Slot}
    (inside : slot.toNat < program.slots.size) (value : Int) (offset : Nat) :
    layout.Registers program (vars.store slot value)
      ⟨machine.registers.setIfInBounds slot.toNat value, offset⟩ := by
  have room : slot.toNat < machine.registers.size := by
    rw [registers.size, Program.registerCount]
    omega
  refine ⟨?_, ?_, ?_, ?_⟩
  · rw [Variables.size_store, registers.cells]
  · rw [Array.size_setIfInBounds, registers.size]
  · intro other bounded
    rw [Machine.register_set machine other value offset room]
    by_cases same : slot = other
    · subst same
      rw [if_pos rfl, Variables.fetch_store_self value (registers.cells ▸ inside)]
    · rw [if_neg same, Variables.fetch_store_of_ne value same, registers.own other bounded]
  · intro always sure
    have apart : slot ≠ always := by
      rintro rfl
      have := (compiles.toNat_always sure).2
      omega
    rw [Machine.register_set machine always value offset room, if_neg apart,
      registers.sure always sure]

/-- Where the machine stands when the run has come to a phrase. -/
inductive Stands (layout : Layout) (program : Program) (state : State) : Nat → Prop
  | settled (top : state.frames.top? ≠ some (.chain false)) :
      Stands layout program state (layout.offset state.pc)
  | untaken {phrase : Phrase} {op : Op} (top : state.frames.top? = some (.chain false))
      (here : program.At state.pc phrase op) (ends : op.keyword ∈ Keyword.branchEnds) :
      Stands layout program state (layout.entryPoint program state.pc)
  | leaving {phrase : Phrase} {op : Op} {chainEnd : Nat}
      (top : state.frames.top? = some (.chain true)) (here : program.At state.pc phrase op)
      (branch : op.keyword = .elifNonzero ∨ op.keyword = .elseBranch)
      (last : program.outline.next? state.pc Keyword.chainEnds = some chainEnd) :
      Stands layout program state (layout.offset chainEnd)

/-- The run and the machine are at the same point. Below the innermost block every chain of
branches has one that was taken. -/
structure Simulates (layout : Layout) (program : Program) (state : State) (machine : Machine) :
    Prop where
  coherent : layout.Coherent program state
  below : Frame.chain false ∉ state.frames.pop.frames
  stands : layout.Stands program state machine.offset
  registers : layout.Registers program state.vars machine

theorem Stands.of_plain {offset : Nat} (stands : layout.Stands program state offset)
    (plain : ∀ phrase op, program.At state.pc phrase op → op.keyword ∉ Keyword.branchEnds) :
    offset = layout.offset state.pc ∧ state.frames.top? ≠ some (.chain false) := by
  cases stands with
  | settled top => exact ⟨rfl, top⟩
  | untaken _ here ends => exact absurd ends (plain _ _ here)
  | leaving _ here branch =>
      rcases branch with elif | other
      · exact absurd (by simp [elif, Keyword.branchEnds]) (plain _ _ here)
      · exact absurd (by simp [other, Keyword.branchEnds]) (plain _ _ here)

theorem Stands.of_at {offset : Nat} {phrase : Phrase} {op : Op}
    (stands : layout.Stands program state offset) (here : program.At state.pc phrase op)
    (plain : op.keyword ∉ Keyword.branchEnds) :
    offset = layout.offset state.pc ∧ state.frames.top? ≠ some (.chain false) := by
  apply stands.of_plain
  intro other found there
  rw [Program.At, here] at there
  cases there
  exact plain

theorem Stands.of_endIf {offset : Nat} {phrase : Phrase}
    (stands : layout.Stands program state offset) (here : program.At state.pc phrase .endIf) :
    offset = layout.offset state.pc := by
  cases stands with
  | settled => rfl
  | untaken =>
      rw [entryPoint_of_at here]
      simp [Statement.keyword]
  | leaving _ there branch =>
      rw [Program.At, here] at there
      cases there
      simp [Statement.keyword] at branch

/-- Where a branch was not taken the machine stands past the jump in front of the next one. -/
theorem Stands.of_untaken {offset : Nat} (stands : layout.Stands program state offset)
    (top : state.frames.top? = some (.chain false)) :
    offset = layout.entryPoint program state.pc := by
  cases stands with
  | settled other => exact absurd top other
  | untaken => rfl
  | leaving other =>
      rw [top] at other
      cases other

/-- With a branch taken the machine is at the phrase or has jumped to the end of the chain. -/
theorem Stands.of_taken {offset : Nat} (stands : layout.Stands program state offset)
    (top : state.frames.top? = some (.chain true)) :
    offset = layout.offset state.pc ∨
      ∃ chainEnd, program.outline.next? state.pc Keyword.chainEnds = some chainEnd ∧
        offset = layout.offset chainEnd := by
  cases stands with
  | settled => exact .inl rfl
  | untaken other =>
      rw [top] at other
      cases other
  | leaving _ _ _ last => exact .inr ⟨_, last, rfl⟩

/-- The run hops to the end of its branch while the machine is at the end of the chain. -/
theorem Compiles.stands_hop (compiles : layout.Compiles program) (linked : program.WellLinked)
    {address chainEnd : Nat} (top : state.frames.top? = some (.chain true))
    (inside : state.pc < program.size)
    (found : program.outline.next? state.pc Keyword.branchEnds = some address)
    (last : program.outline.next? state.pc Keyword.chainEnds = some chainEnd) :
    layout.Stands program { state with pc := address } (layout.offset chainEnd) := by
  obtain ⟨phrase, op, here, ends⟩ := compiles.at_of_next? linked inside found
  have spelled := linked.outline_op here
  have onward := Outline.next?_chainEnds found
  rw [last, spelled, Option.join_some] at onward
  by_cases closed : op.keyword = .endIf
  · rw [if_pos (by rw [closed])] at onward
    cases onward
    exact .settled (by simp [top])
  · rw [if_neg (fun same => closed (Option.some.inj same))] at onward
    have branch : op.keyword = .elifNonzero ∨ op.keyword = .elseBranch := by
      simp only [Keyword.branchEnds, List.mem_cons, List.not_mem_nil, or_false] at ends
      tauto
    exact .leaving top here branch onward.symm

theorem Simulates.no_pending (simulates : layout.Simulates program state machine)
    (top : state.frames.top? ≠ some (.chain false)) :
    Frame.chain false ∉ state.frames.frames := by
  intro member
  cases found : state.frames.top? with
  | none => simp [List.head?_eq_none_iff.1 found] at member
  | some frame =>
      rw [Stack.frames_of_top? found, List.mem_cons] at member
      rcases member with same | deeper
      · exact top (by rw [found, same])
      · exact simulates.below deeper

theorem top?_ne_of_not_mem {frames : Stack} {frame : Frame} (absent : frame ∉ frames.frames) :
    frames.top? ≠ some frame := by
  intro found
  rw [Stack.frames_of_top? found] at absent
  exact absent List.mem_cons_self

theorem Simulates.below_of_move (simulates : layout.Simulates program state machine)
    (move : program.Move state after) : Frame.chain false ∉ after.frames.pop.frames := by
  have opened : ∀ {phrase : Phrase} {op : Op} (frame : Frame), program.At state.pc phrase op →
      op.keyword ∉ Keyword.branchEnds →
      Frame.chain false ∉ (state.frames.push frame).pop.frames := by
    intro phrase op frame here plain
    rw [Stack.pop_push]
    exact simulates.no_pending (simulates.stands.of_at here plain).2
  have closed : Frame.chain false ∉ state.frames.pop.pop.frames := fun deeper =>
    simulates.below (List.mem_of_mem_tail deeper)
  have replaced : ∀ {top : Frame} (frame : Frame), state.frames.top? = some top →
      Frame.chain false ∉ (state.frames.replaceTop frame).pop.frames := by
    intro top frame found
    rw [Stack.frames_pop, Stack.frames_replaceTop found]
    exact simulates.below
  cases move with
  | skip | clear | incr | decr | repeatLoop | passElif | passElse => exact simulates.below
  | openLoop here => exact opened _ here (by simp [Statement.keyword, Keyword.branchEnds])
  | takeFirst here => exact opened _ here (by simp [Statement.keyword, Keyword.branchEnds])
  | passFirst here => exact opened _ here (by simp [Statement.keyword, Keyword.branchEnds])
  | leaveLoop | closeChain => exact closed
  | takeElif _ top => exact replaced _ top
  | takeElse _ top => exact replaced _ top

theorem Registers.always_ne {vars : Variables} (registers : layout.Registers program vars machine)
    {always : Slot} (sure : layout.always? = some always) : machine.register always ≠ 0 := by
  rw [registers.sure always sure]
  decide

/-- The machine can follow the run from `state` to `after`. It may do so without a tick only
where the run goes forward. -/
def Follows (layout : Layout) (program : Program) (state after : State) (machine : Machine) :
    Prop :=
  ∃ count next,
    Steps (Machine.Goes (layout.codeBefore program program.size)) count machine next ∧
      layout.Stands program after next.offset ∧ layout.Registers program after.vars next ∧
      (count = 0 → state.pc < after.pc)

theorem follows_waiting (stands : layout.Stands program after machine.offset)
    (registers : layout.Registers program after.vars machine) (forward : state.pc < after.pc) :
    layout.Follows program state after machine :=
  ⟨0, machine, .none machine, stands, registers, fun _ => forward⟩

theorem Simulates.operand_eq (simulates : layout.Simulates program state machine)
    (linked : program.WellLinked) {phrase : Phrase} {op : Op} {slot : Slot}
    (here : program.At state.pc phrase op) (operand : op.operand? = some slot) :
    machine.register slot = state.vars.fetch slot :=
  simulates.registers.own slot (linked.operand_lt here operand)

section Moves

variable {phrase : Phrase} {slot : Slot}

theorem Compiles.follow_value (compiles : layout.Compiles program) (linked : program.WellLinked)
    (simulates : layout.Simulates program state machine) {op : Op} {record : Record} {value : Int}
    (here : program.At state.pc phrase op) (plain : op.keyword ∉ Keyword.branchEnds)
    (operand : op.operand? = some record.slot)
    (code : layout.codeBefore program (state.pc + 1) =
      layout.codeBefore program state.pc ++ [record])
    (computed : (record.opcode = .clear ∧ some value = some 0) ∨
      (record.opcode = .inc ∧ some value = Value.succ? (state.vars.fetch record.slot)) ∨
      (record.opcode = .dec ∧ some value = Value.pred? (state.vars.fetch record.slot)))
    (length : op.codeLength = Record.width) :
    layout.Follows program state
      { state with vars := state.vars.store record.slot value, pc := state.pc + 1 } machine := by
  obtain ⟨stands, top⟩ := simulates.stands.of_at here plain
  rw [← simulates.operand_eq linked here operand] at computed
  have ticked := compiles.tick_settle here code rfl stands computed
  have next := compiles.offset_succ here
  refine ⟨1, _, .single ticked, ?_, ?_, by simp⟩
  · rw [stands, ← length, ← next]
    exact .settled top
  · exact simulates.registers.set compiles (linked.operand_lt here operand) value _

theorem Compiles.at_loop_end (compiles : layout.Compiles program) (linked : program.WellLinked)
    (simulates : layout.Simulates program state machine) {returnTo : Nat}
    (here : program.At state.pc phrase .endWhile)
    (top : state.frames.top? = some (.loop returnTo slot)) :
    machine.offset = layout.offset state.pc ∧
      layout.codeBefore program (state.pc + 1) = layout.codeBefore program state.pc ++
        [.goto slot (layout.offset (returnTo + 1)).toUInt32] ∧
      layout.offset (returnTo + 1) ≤ codeLimit ∧
      machine.register slot = state.vars.fetch slot := by
  obtain ⟨stands, _⟩ :=
    simulates.stands.of_at here (by simp [Statement.keyword, Keyword.branchEnds])
  obtain ⟨_, shape⟩ := simulates.coherent.frames_cons top
  obtain ⟨before, ⟨opening, opener⟩, _⟩ :=
    compiles.loop_opened simulates.coherent.inside [] shape
  have body : layout.offset (returnTo + 1) = layout.offset returnTo :=
    compiles.offset_succ opener
  have bounded : returnTo + 1 ≤ program.size := Nat.le_trans before simulates.coherent.inside
  have own : (layout.framesBefore program state.pc).top? = some (.loop returnTo slot) := by
    rw [simulates.coherent.top?, top]
    rfl
  obtain ⟨_, _, lowers, _, code⟩ := compiles.lowers here
  cases lowers with
  | closeLoop other =>
      rw [own] at other
      cases other
      rw [← body] at code
      exact ⟨stands, code, compiles.offset_le bounded,
        simulates.registers.own slot (linked.operand_lt opener rfl)⟩

theorem Compiles.follow_repeat (compiles : layout.Compiles program) (linked : program.WellLinked)
    (simulates : layout.Simulates program state machine) {returnTo : Nat}
    (here : program.At state.pc phrase .endWhile)
    (top : state.frames.top? = some (.loop returnTo slot)) (nonzero : state.vars.fetch slot ≠ 0) :
    layout.Follows program state { state with pc := returnTo + 1 } machine := by
  obtain ⟨stands, code, bounded, value⟩ := compiles.at_loop_end linked simulates here top
  rw [← value] at nonzero
  have goes := compiles.goes_to here code 0 rfl bounded (by simpa using stands) nonzero
  exact ⟨1, _, .single goes, .settled (by simp [top]), simulates.registers.jump _, by simp⟩

theorem Compiles.follow_leave (compiles : layout.Compiles program) (linked : program.WellLinked)
    (simulates : layout.Simulates program state machine) {returnTo : Nat}
    (here : program.At state.pc phrase .endWhile)
    (top : state.frames.top? = some (.loop returnTo slot)) (zero : state.vars.fetch slot = 0) :
    layout.Follows program state
      { state with frames := state.frames.pop, pc := state.pc + 1 } machine := by
  obtain ⟨stands, code, _, value⟩ := compiles.at_loop_end linked simulates here top
  rw [← value] at zero
  have goes := compiles.goes_past here code 0 rfl (by simpa using stands) zero
  have next : layout.offset (state.pc + 1) = layout.offset state.pc + (0 + 1) * Record.width :=
    compiles.offset_succ here
  refine ⟨1, _, .single goes, ?_, simulates.registers.jump _, by simp⟩
  rw [← next]
  exact .settled (top?_ne_of_not_mem simulates.below)

theorem Compiles.follow_takeFirst (compiles : layout.Compiles program)
    (linked : program.WellLinked) (simulates : layout.Simulates program state machine)
    (here : program.At state.pc phrase (.ifNonzero slot))
    (nonzero : state.vars.fetch slot ≠ 0) :
    layout.Follows program state
      { state with frames := state.frames.push (.chain true), pc := state.pc + 1 } machine := by
  obtain ⟨stands, _⟩ :=
    simulates.stands.of_at here (by simp [Statement.keyword, Keyword.branchEnds])
  have inside : state.pc < program.size := Program.lt_size_of_entry here
  have value := simulates.operand_eq linked here rfl
  have next : layout.offset (state.pc + 1) = layout.offset state.pc + 2 * Record.width :=
    compiles.offset_succ here
  obtain ⟨_, _, lowers, _, code⟩ := compiles.lowers here
  cases lowers with
  | openChain =>
      have goes := compiles.goes_to here code 0 rfl (next ▸ compiles.offset_le inside)
        (by simpa using stands) (by rw [value]; exact nonzero)
      refine ⟨1, _, .single goes, ?_, simulates.registers.jump _, by simp⟩
      rw [← next]
      exact .settled (by simp [Stack.top?])

/-- The machine passes the test of a branch that is not taken and jumps in front of the next. -/
theorem Compiles.follow_pass (compiles : layout.Compiles program) (linked : program.WellLinked)
    (simulates : layout.Simulates program state machine) {op : Op} {records : List Record}
    {always : Slot} {address : Nat} {target : UInt32} {frames : Stack} (index : Nat)
    (here : program.At state.pc phrase op)
    (code : layout.codeBefore program (state.pc + 1) =
      layout.codeBefore program state.pc ++ records)
    (operand : op.operand? = some slot) (zero : state.vars.fetch slot = 0)
    (sure : layout.always? = some always)
    (test : records[index]? = some (.goto slot target))
    (jump : records[index + 1]? =
      some (.goto always (layout.entryPoint program address).toUInt32))
    (stands : machine.offset = layout.offset state.pc + index * Record.width)
    (found : program.outline.next? state.pc Keyword.branchEnds = some address)
    (pending : frames.top? = some (.chain false)) :
    layout.Follows program state { state with frames, pc := address } machine := by
  have inside : state.pc < program.size := Program.lt_size_of_entry here
  obtain ⟨other, reached, there, ends⟩ := compiles.at_of_next? linked inside found
  have value := simulates.operand_eq linked here operand
  have past := compiles.goes_past here code index test stands (by rw [value, zero])
  have registers := simulates.registers.jump (layout.offset state.pc + (index + 1) * Record.width)
  have goes := compiles.goes_to here code (index + 1) jump (compiles.entryPoint_le there) rfl
    (registers.always_ne sure)
  exact ⟨2, _, .cons past (.single goes), .untaken pending there ends, registers.jump _, by simp⟩

/-- At the branch after the one taken the machine jumps to the end of the chain, if it is not
there already. -/
theorem Compiles.leaves_chain (compiles : layout.Compiles program) (linked : program.WellLinked)
    (simulates : layout.Simulates program state machine) {op : Op} {records : List Record}
    {always : Slot} {chainEnd : Nat} (here : program.At state.pc phrase op)
    (code : layout.codeBefore program (state.pc + 1) =
      layout.codeBefore program state.pc ++ records)
    (sure : layout.always? = some always)
    (jump : records[0]? = some (.goto always (layout.offset chainEnd).toUInt32))
    (top : state.frames.top? = some (.chain true))
    (last : program.outline.next? state.pc Keyword.chainEnds = some chainEnd) :
    ∃ count, Steps (Machine.Goes (layout.codeBefore program program.size)) count machine
      { machine with offset := layout.offset chainEnd } := by
  have inside : state.pc < program.size := Program.lt_size_of_entry here
  obtain ⟨_, bounded, _⟩ := compiles.frames_of_next? linked inside last
  rcases simulates.stands.of_taken top with stands | ⟨other, found, stands⟩
  · have goes := compiles.goes_to here code 0 jump (compiles.offset_le (Nat.le_of_lt bounded))
      (by simpa using stands) (simulates.registers.always_ne sure)
    exact ⟨1, .single goes⟩
  · rw [last] at found
    cases found
    rw [← stands]
    exact ⟨0, .none machine⟩

theorem Compiles.follow_takeElif (compiles : layout.Compiles program)
    (linked : program.WellLinked) (simulates : layout.Simulates program state machine)
    (here : program.At state.pc phrase (.elifNonzero slot))
    (top : state.frames.top? = some (.chain false)) (nonzero : state.vars.fetch slot ≠ 0) :
    layout.Follows program state
      { state with frames := state.frames.replaceTop (.chain true), pc := state.pc + 1 }
      machine := by
  have stands := simulates.stands.of_untaken top
  rw [entryPoint_of_at here, if_pos (.inl rfl)] at stands
  have inside : state.pc < program.size := Program.lt_size_of_entry here
  have value := simulates.operand_eq linked here rfl
  have next : layout.offset (state.pc + 1) = layout.offset state.pc + 3 * Record.width :=
    compiles.offset_succ here
  obtain ⟨_, _, lowers, _, code⟩ := compiles.lowers here
  cases lowers with
  | elifBranch =>
      have goes := compiles.goes_to here code 1 rfl (next ▸ compiles.offset_le inside)
        (by simpa using stands) (by rw [value]; exact nonzero)
      refine ⟨1, _, .single goes, ?_, simulates.registers.jump _, by simp⟩
      rw [← next]
      exact .settled (by simp [Stack.top?, Stack.frames_replaceTop top])

theorem Compiles.follow_passElif (compiles : layout.Compiles program)
    (linked : program.WellLinked) (simulates : layout.Simulates program state machine)
    {resolved : Bool} {address : Nat} (here : program.At state.pc phrase (.elifNonzero slot))
    (top : state.frames.top? = some (.chain resolved))
    (passed : resolved = true ∨ state.vars.fetch slot = 0)
    (found : program.outline.next? state.pc Keyword.branchEnds = some address) :
    layout.Follows program state { state with pc := address } machine := by
  have inside : state.pc < program.size := Program.lt_size_of_entry here
  obtain ⟨forward, _⟩ := compiles.frames_of_next? linked inside found
  obtain ⟨_, _, lowers, _, code⟩ := compiles.lowers here
  cases lowers with
  | elifBranch _ sure last other =>
      rw [found] at other
      cases other
      cases resolved with
      | true =>
          obtain ⟨count, steps⟩ :=
            compiles.leaves_chain linked simulates here code sure rfl top last
          exact ⟨count, _, steps, compiles.stands_hop linked top inside found last,
            simulates.registers.jump _, fun _ => forward⟩
      | false =>
          have stands := simulates.stands.of_untaken top
          rw [entryPoint_of_at here, if_pos (.inl rfl)] at stands
          have zero : state.vars.fetch slot = 0 := passed.resolve_left Bool.false_ne_true
          exact compiles.follow_pass linked simulates 1 here code rfl zero sure rfl rfl
            (by simpa using stands) found top

theorem Compiles.follow_passElse (compiles : layout.Compiles program)
    (linked : program.WellLinked) (simulates : layout.Simulates program state machine)
    {address : Nat} (here : program.At state.pc phrase .elseBranch)
    (top : state.frames.top? = some (.chain true))
    (found : program.outline.next? state.pc Keyword.chainEnds = some address) :
    layout.Follows program state { state with pc := address } machine := by
  have inside : state.pc < program.size := Program.lt_size_of_entry here
  obtain ⟨forward, _⟩ := compiles.frames_of_next? linked inside found
  obtain ⟨_, _, lowers, _, code⟩ := compiles.lowers here
  cases lowers with
  | elseBranch _ sure last =>
      rw [found] at last
      cases last
      obtain ⟨count, steps⟩ :=
        compiles.leaves_chain linked simulates here code sure rfl top found
      exact ⟨count, _, steps, .settled (by simp [top]), simulates.registers.jump _,
        fun _ => forward⟩

end Moves

/-- Whatever step the run takes, the machine can follow. -/
theorem Compiles.follow_move (compiles : layout.Compiles program) (linked : program.WellLinked)
    (simulates : layout.Simulates program state machine) (move : program.Move state after) :
    layout.Follows program state after machine := by
  have inside := Program.pc_lt_of_move move
  cases move with
  | skip here =>
      obtain ⟨stands, top⟩ := simulates.stands.of_plain (by
        intro phrase op there
        rw [Program.At, here] at there
        cases there)
      refine follows_waiting ?_ simulates.registers (Nat.lt_succ_self _)
      rw [stands, ← compiles.offset_skipped here]
      exact .settled top
  | clear here =>
      obtain ⟨_, _, lowers, _, code⟩ := compiles.lowers here
      cases lowers
      exact compiles.follow_value linked simulates here
        (by simp [Statement.keyword, Keyword.branchEnds]) rfl code (.inl ⟨rfl, rfl⟩) rfl
  | incr here fits =>
      obtain ⟨_, _, lowers, _, code⟩ := compiles.lowers here
      cases lowers
      exact compiles.follow_value linked simulates here
        (by simp [Statement.keyword, Keyword.branchEnds]) rfl code
        (.inr (.inl ⟨rfl, fits.symm⟩)) rfl
  | decr here fits =>
      obtain ⟨_, _, lowers, _, code⟩ := compiles.lowers here
      cases lowers
      exact compiles.follow_value linked simulates here
        (by simp [Statement.keyword, Keyword.branchEnds]) rfl code
        (.inr (.inr ⟨rfl, fits.symm⟩)) rfl
  | openLoop here =>
      obtain ⟨stands, _⟩ :=
        simulates.stands.of_at here (by simp [Statement.keyword, Keyword.branchEnds])
      have next : layout.offset (state.pc + 1) = layout.offset state.pc :=
        compiles.offset_succ here
      refine follows_waiting ?_ simulates.registers (Nat.lt_succ_self _)
      rw [stands, ← next]
      exact .settled (by simp [Stack.top?])
  | leaveLoop here top zero => exact compiles.follow_leave linked simulates here top zero
  | repeatLoop here top nonzero => exact compiles.follow_repeat linked simulates here top nonzero
  | takeFirst here nonzero => exact compiles.follow_takeFirst linked simulates here nonzero
  | passFirst here zero found =>
      obtain ⟨stands, _⟩ :=
        simulates.stands.of_at here (by simp [Statement.keyword, Keyword.branchEnds])
      obtain ⟨_, _, lowers, _, code⟩ := compiles.lowers here
      cases lowers with
      | openChain _ sure other =>
          rw [found] at other
          cases other
          exact compiles.follow_pass linked simulates 0 here code rfl zero sure rfl rfl
            (by simpa using stands) found rfl
  | takeElif here top nonzero => exact compiles.follow_takeElif linked simulates here top nonzero
  | passElif here top passed found =>
      exact compiles.follow_passElif linked simulates here top passed found
  | takeElse here top =>
      have stands := simulates.stands.of_untaken top
      rw [entryPoint_of_at here, if_pos (.inr rfl)] at stands
      have next : layout.offset (state.pc + 1) = layout.offset state.pc + Record.width :=
        compiles.offset_succ here
      refine follows_waiting ?_ simulates.registers (Nat.lt_succ_self _)
      rw [stands, ← next]
      exact .settled (by simp [Stack.top?, Stack.frames_replaceTop top])
  | passElse here top found => exact compiles.follow_passElse linked simulates here top found
  | closeChain here =>
      have next : layout.offset (state.pc + 1) = layout.offset state.pc :=
        compiles.offset_succ here
      refine follows_waiting ?_ simulates.registers (Nat.lt_succ_self _)
      rw [simulates.stands.of_endIf here, ← next]
      exact .settled (top?_ne_of_not_mem simulates.below)

theorem Compiles.simulate_move (compiles : layout.Compiles program) (linked : program.WellLinked)
    (simulates : layout.Simulates program state machine) (move : program.Move state after) :
    ∃ count next,
      Steps (Machine.Goes (layout.codeBefore program program.size)) count machine next ∧
        layout.Simulates program after next ∧ (count = 0 → state.pc < after.pc) := by
  obtain ⟨count, next, steps, stands, registers, forward⟩ :=
    compiles.follow_move linked simulates move
  exact ⟨count, next, steps, ⟨compiles.coherent_move linked simulates.coherent move,
    simulates.below_of_move move, stands, registers⟩, forward⟩

/-- A row of moves is followed by a row of ticks. The moves without a tick go forward, so there
are not more of them between two ticks than there are phrases. -/
theorem Compiles.simulate_steps (compiles : layout.Compiles program) (linked : program.WellLinked)
    (simulates : layout.Simulates program state machine) {moves : Nat}
    (steps : Steps program.Move moves state after) :
    ∃ count next,
      Steps (Machine.Goes (layout.codeBefore program program.size)) count machine next ∧
        layout.Simulates program after next ∧
        moves + state.pc ≤ count * (program.size + 1) + after.pc := by
  induction steps generalizing machine with
  | none => exact ⟨0, machine, .none machine, simulates, by omega⟩
  | @cons moves state middle after move rest induction =>
      have inside := Program.pc_lt_of_move move
      obtain ⟨first, between, before, reached, forward⟩ :=
        compiles.simulate_move linked simulates move
      obtain ⟨second, next, behind, arrived, bounded⟩ := induction reached
      refine ⟨first + second, next, before.append behind, arrived, ?_⟩
      rw [Nat.add_mul]
      cases first with
      | zero =>
          have := forward rfl
          omega
      | succ first =>
          rw [Nat.succ_mul]
          omega

theorem Compiles.halted_of_end (compiles : layout.Compiles program)
    (simulates : layout.Simulates program state machine) (past : program.size ≤ state.pc) :
    machine.tick (layout.codeBefore program program.size) = .halted := by
  have last : state.pc = program.size := Nat.le_antisymm simulates.coherent.inside past
  obtain ⟨stands, _⟩ := simulates.stands.of_plain (by
    intro phrase op here
    have := Program.lt_size_of_entry here
    exact absurd this (Nat.not_lt.2 past))
  have index : machine.offset / Record.width =
      (layout.codeBefore program program.size).length := by
    rw [stands, last, compiles.offset_eq (Nat.le_refl _)]
    exact Nat.mul_div_cancel _ (by decide)
  rw [Machine.tick, index, List.getElem?_eq_none (Nat.le_refl _)]

theorem Compiles.overflowed_of_failure (compiles : layout.Compiles program)
    (linked : program.WellLinked) (simulates : layout.Simulates program state machine)
    {fault : Fault} {left : State} (failure : program.Failure state fault left) :
    machine.tick (layout.codeBefore program program.size) = .overflowed := by
  have overflow := compiles.failure_overflow simulates.coherent failure
  cases failure with
  | incr here overflows =>
      obtain ⟨stands, _⟩ :=
        simulates.stands.of_at here (by simp [Statement.keyword, Keyword.branchEnds])
      obtain ⟨_, _, lowers, _, code⟩ := compiles.lowers here
      cases lowers
      rw [← simulates.operand_eq linked here rfl] at overflows
      exact compiles.tick_settle here code rfl stands (.inr (.inl ⟨rfl, overflows.symm⟩))
  | decr here overflows =>
      obtain ⟨stands, _⟩ :=
        simulates.stands.of_at here (by simp [Statement.keyword, Keyword.branchEnds])
      obtain ⟨_, _, lowers, _, code⟩ := compiles.lowers here
      cases lowers
      rw [← simulates.operand_eq linked here rfl] at overflows
      exact compiles.tick_settle here code rfl stands (.inr (.inr ⟨rfl, overflows.symm⟩))
  | broken here => exact absurd here compiles.unbroken
  | loopTooDeep | takeTooDeep | passTooDeep | strayEnd | strayElif | strayElse | strayEndIf
  | unclosedIf | unclosedElif | unclosedElse => cases overflow.1

end Abacus.Bytecode.Layout
