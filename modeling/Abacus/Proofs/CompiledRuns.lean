import Abacus.Proofs.Simulation

/-!
Whole runs of a compiled program. The prologue brings the machine to the code of the first phrase
with its extra variable set to one. From there on the machine follows the run to whatever end the
run comes to, so both have the same one.
-/

namespace Abacus

namespace Bytecode.Layout

variable {layout : Layout} {program : Program}

theorem registers_replicate (plain : layout.always? = none) {count : Nat}
    (size : count = program.registerCount) (offset : Nat) :
    layout.Registers program (.ofSlots program.slots) ⟨Array.replicate count 0, offset⟩ where
  cells := Variables.size_ofSlots program.slots
  size := by rw [Array.size_replicate, size]
  own slot _ := by rw [Machine.register_replicate, Variables.fetch_ofSlots]
  sure always found := by
    rw [plain] at found
    cases found

theorem Compiles.always_lt (compiles : layout.Compiles program) {always : Slot}
    (sure : layout.always? = some always) {count : Nat} (size : count = program.registerCount) :
    always.toNat < (Array.replicate count (0 : Int)).size := by
  obtain ⟨branching, place⟩ := compiles.toNat_always sure
  rw [Array.size_replicate, size, Program.registerCount, branching, place]
  exact Nat.lt_succ_self _

/-- The prologue sets the variable of sure jumps to one and leaves the others alone. -/
theorem Compiles.registers_prologue (compiles : layout.Compiles program) {always : Slot}
    (sure : layout.always? = some always) {count : Nat} (size : count = program.registerCount)
    (offset : Nat) :
    layout.Registers program (.ofSlots program.slots)
      ⟨((Array.replicate count 0).setIfInBounds always.toNat 0).setIfInBounds always.toNat 1,
        offset⟩ := by
  obtain ⟨_, place⟩ := compiles.toNat_always sure
  have room := compiles.always_lt sure size
  have values : ∀ slot, Machine.register
      ⟨((Array.replicate count 0).setIfInBounds always.toNat 0).setIfInBounds always.toNat 1,
        offset⟩ slot = if always = slot then 1 else 0 := by
    intro slot
    have again : always.toNat <
        (⟨(Array.replicate count 0).setIfInBounds always.toNat 0, offset⟩ :
          Machine).registers.size := by
      rw [Array.size_setIfInBounds]
      exact room
    rw [Machine.register_set _ slot 1 offset again,
      Machine.register_set ⟨Array.replicate count 0, offset⟩ slot 0 offset room,
      Machine.register_replicate]
    simp
  refine ⟨Variables.size_ofSlots program.slots, ?_, ?_, ?_⟩
  · rw [Array.size_setIfInBounds, Array.size_setIfInBounds, Array.size_replicate, size]
  · intro slot bounded
    have apart : always ≠ slot := by
      rintro rfl
      omega
    rw [values, if_neg apart, Variables.fetch_ofSlots]
  · intro other found
    rw [sure] at found
    cases found
    rw [values, if_pos rfl]

/-- The machine comes to the code of the first phrase. -/
theorem Compiles.boot (compiles : layout.Compiles program) {count : Nat}
    (size : count = program.registerCount) :
    ∃ ticks machine,
      Steps (Machine.Goes (layout.codeBefore program program.size)) ticks
          ⟨Array.replicate count 0, 0⟩ machine ∧
        layout.Simulates program (.start program) machine := by
  have first := compiles.offset_eq (Nat.zero_le _)
  rw [codeBefore_zero] at first
  have simulates : ∀ machine : Machine, machine.offset = layout.offset 0 →
      layout.Registers program (.ofSlots program.slots) machine →
      layout.Simulates program (.start program) machine := by
    intro machine stands registers
    refine ⟨coherent_start layout program, by simp [State.start, Stack.empty], ?_, registers⟩
    rw [stands]
    exact .settled (by simp [State.start, Stack.empty, Stack.top?])
  obtain ⟨rest, whole⟩ := compiles.codeBefore_mono (Nat.zero_le _) (Nat.le_refl _)
  rw [codeBefore_zero] at whole
  cases sure : layout.always? with
  | none =>
      rw [prologue, sure] at first
      exact ⟨0, _, .none _, simulates _ first.symm (registers_replicate sure size 0)⟩
  | some always =>
      rw [prologue, sure] at first whole
      have cleared : (layout.codeBefore program program.size)[0 / Record.width]? =
          some (.clear always) := by
        rw [← whole]
        rfl
      have raised : (layout.codeBefore program program.size)[(0 + Record.width) / Record.width]? =
          some (.inc always) := by
        rw [← whole]
        rfl
      have clear :=
        Machine.tick_settle ⟨Array.replicate count 0, 0⟩ cleared (.inl ⟨rfl, rfl⟩)
      have zero : Machine.register ⟨(Array.replicate count 0).setIfInBounds always.toNat 0,
          0 + Record.width⟩ always = 0 := by
        rw [Machine.register_set ⟨Array.replicate count 0, 0⟩ always 0 _
          (compiles.always_lt sure size), if_pos rfl]
      have one : some 1 = Value.succ? (Machine.register
          ⟨(Array.replicate count 0).setIfInBounds always.toNat 0, 0 + Record.width⟩ always) := by
        rw [zero]
        rfl
      have raise :=
        Machine.tick_settle
          ⟨(Array.replicate count 0).setIfInBounds always.toNat 0, 0 + Record.width⟩ raised
          (.inr (.inl ⟨rfl, one⟩))
      exact ⟨2, _, .cons clear (.single raise),
        simulates _ first.symm (compiles.registers_prologue sure size _)⟩

end Bytecode.Layout

namespace Program

open Bytecode

/-- Each of the program's variables is in the register of its slot. -/
def SameValues (program : Program) (vars : Variables) (machine : Machine) : Prop :=
  ∀ slot : Slot, slot.toNat < program.slots.size →
    ∃ value, vars.fetch? slot = some value ∧ machine.registers[slot.toNat]? = some value

theorem sameValues_of_registers {program : Program} {layout : Layout} {vars : Variables}
    {machine : Machine} (registers : layout.Registers program vars machine) :
    program.SameValues vars machine := by
  intro slot inside
  have own := registers.own slot inside
  have cell : slot.toNat < vars.size := registers.cells ▸ inside
  have room : slot.toNat < machine.registers.size := by
    rw [registers.size, registerCount]
    omega
  obtain ⟨value, fetched⟩ := Option.isSome_iff_exists.1 (Variables.fetch?_isSome_iff.2 cell)
  refine ⟨value, fetched, ?_⟩
  rw [Machine.register, Array.getD_eq_getD_getElem?, Array.getElem?_eq_getElem room,
    Variables.fetch, fetched] at own
  rw [Array.getElem?_eq_getElem room]
  exact congrArg some own

end Program

namespace Bytecode.Container

def Ends (container : Container) (ending : Machine.Ending) (machine : Machine) : Prop :=
  ∃ ticks, Machine.run? container.code ticks container.boot = some (ending, machine)

def RunsForever (container : Container) : Prop :=
  ∀ ticks, Machine.run? container.code ticks container.boot = none

variable {container : Container} {ending other : Machine.Ending} {left right : Machine}

theorem Ends.unique (toLeft : container.Ends ending left) (toRight : container.Ends other right) :
    left = right ∧ ending = other := by
  obtain ⟨⟨_, leftSteps⟩, leftEnds⟩ := Machine.run?_eq_some_iff.1 toLeft
  obtain ⟨⟨_, rightSteps⟩, rightEnds⟩ := Machine.run?_eq_some_iff.1 toRight
  exact Machine.ending_unique leftSteps leftEnds rightSteps rightEnds

theorem Ends.not_forever (ends : container.Ends ending left) : ¬ container.RunsForever := by
  intro forever
  obtain ⟨ticks, answer⟩ := ends
  rw [forever ticks] at answer
  cases answer

end Bytecode.Container

namespace Program

open Bytecode

variable {program : Program} {container : Container}

/-- The machine follows every row of moves of a program that compiles. -/
theorem follows_of_compile (linked : program.WellLinked)
    (compiled : program.compile = .ok container) :
    ∃ layout, Layout.Compiles layout program ∧
      container.code = layout.codeBefore program program.size ∧
      ∀ {moves : Nat} {after : State}, Steps program.Move moves (.start program) after →
        ∃ count machine, Steps (Machine.Goes container.code) count container.boot machine ∧
          layout.Simulates program after machine ∧
          moves ≤ count * (program.size + 1) + program.size := by
  obtain ⟨layout, compiles, code, count, _⟩ := compiles_of_compile linked compiled
  refine ⟨layout, compiles, code, ?_⟩
  intro moves after steps
  obtain ⟨ticks, machine, booted, simulates⟩ := compiles.boot count
  obtain ⟨more, next, followed, arrived, bounded⟩ :=
    compiles.simulate_steps linked simulates steps
  rw [code]
  refine ⟨ticks + more, next, booted.append followed, arrived, ?_⟩
  have inside := arrived.coherent.inside
  rw [Nat.add_mul]
  omega

theorem ends_of_halts (linked : program.WellLinked) (compiled : program.compile = .ok container)
    {last : State} (halts : program.Halts (.start program) last) :
    ∃ machine, container.Ends .halted machine ∧ program.SameValues last.vars machine := by
  obtain ⟨layout, compiles, code, follows⟩ := follows_of_compile linked compiled
  obtain ⟨⟨_, steps⟩, past⟩ := halts
  obtain ⟨count, machine, followed, simulates, _⟩ := follows steps
  have ends := compiles.halted_of_end simulates past
  rw [← code] at ends
  exact ⟨machine, Machine.run?_eq_some_iff.2 ⟨⟨count, followed⟩, ends⟩,
    sameValues_of_registers simulates.registers⟩

theorem ends_of_fails (linked : program.WellLinked) (compiled : program.compile = .ok container)
    {fault : Fault} {left : State} (fails : program.Fails (.start program) fault left) :
    fault.kind = .overflow ∧
      ∃ machine, container.Ends .overflowed machine ∧ program.SameValues left.vars machine := by
  obtain ⟨layout, compiles, code, follows⟩ := follows_of_compile linked compiled
  obtain ⟨last, ⟨_, steps⟩, failure⟩ := fails
  obtain ⟨count, machine, followed, simulates, _⟩ := follows steps
  have ends := compiles.overflowed_of_failure linked simulates failure
  rw [← code] at ends
  obtain ⟨kind, rfl⟩ := compiles.failure_overflow simulates.coherent failure
  exact ⟨kind, machine, Machine.run?_eq_some_iff.2 ⟨⟨count, followed⟩, ends⟩,
    sameValues_of_registers simulates.registers⟩

theorem forever_of_endless (linked : program.WellLinked)
    (compiled : program.compile = .ok container) (endless : program.Endless (.start program)) :
    container.RunsForever := by
  obtain ⟨layout, _, _, follows⟩ := follows_of_compile linked compiled
  apply Machine.run?_eq_none_iff.2
  intro count
  obtain ⟨after, steps⟩ := endless (count * (program.size + 1) + program.size)
  obtain ⟨ticks, machine, followed, _, bounded⟩ := follows steps
  have enough : count ≤ ticks :=
    Nat.le_of_mul_le_mul_right (Nat.le_of_add_le_add_right bounded) (Nat.succ_pos _)
  exact followed.shorten enough

section Whole

variable {phrases : Array Phrase} (compiled : (ofPhrases phrases).compile = .ok container)
include compiled

theorem returns_iff_halted :
    (∃ vars, (ofPhrases phrases).Returns vars) ↔ ∃ machine, container.Ends .halted machine := by
  have linked := wellLinked_ofPhrases phrases
  constructor
  · rintro ⟨vars, returns⟩
    obtain ⟨last, halts, rfl⟩ := returns_iff.1 returns
    obtain ⟨machine, ends, _⟩ := ends_of_halts linked compiled halts
    exact ⟨machine, ends⟩
  · rintro ⟨machine, ends⟩
    rcases endless_or_ends (ofPhrases phrases) (State.fresh_start _) with
      endless | ⟨last, halts⟩ | ⟨fault, left, fails⟩
    · exact absurd (forever_of_endless linked compiled endless) ends.not_forever
    · exact ⟨last.vars, returns_iff.2 ⟨last, halts, rfl⟩⟩
    · obtain ⟨_, other, overflowed, _⟩ := ends_of_fails linked compiled fails
      cases (ends.unique overflowed).2

theorem sameValues_of_returns {vars : Variables} {machine : Machine}
    (returns : (ofPhrases phrases).Returns vars) (ends : container.Ends .halted machine) :
    (ofPhrases phrases).SameValues vars machine := by
  obtain ⟨last, halts, rfl⟩ := returns_iff.1 returns
  obtain ⟨other, halted, same⟩ := ends_of_halts (wellLinked_ofPhrases phrases) compiled halts
  obtain ⟨rfl, _⟩ := ends.unique halted
  exact same

theorem overflows_iff_overflowed :
    (∃ vars, (ofPhrases phrases).Overflows vars) ↔
      ∃ machine, container.Ends .overflowed machine := by
  have linked := wellLinked_ofPhrases phrases
  constructor
  · rintro ⟨vars, overflows⟩
    obtain ⟨fault, left, fails, _, rfl⟩ := overflows_iff.1 overflows
    obtain ⟨_, machine, ends, _⟩ := ends_of_fails linked compiled fails
    exact ⟨machine, ends⟩
  · rintro ⟨machine, ends⟩
    rcases endless_or_ends (ofPhrases phrases) (State.fresh_start _) with
      endless | ⟨last, halts⟩ | ⟨fault, left, fails⟩
    · exact absurd (forever_of_endless linked compiled endless) ends.not_forever
    · obtain ⟨other, halted, _⟩ := ends_of_halts linked compiled halts
      cases (ends.unique halted).2
    · obtain ⟨kind, _⟩ := ends_of_fails linked compiled fails
      exact ⟨left.vars, overflows_iff.2 ⟨fault, left, fails, kind, rfl⟩⟩

theorem sameValues_of_overflows {vars : Variables} {machine : Machine}
    (overflows : (ofPhrases phrases).Overflows vars)
    (ends : container.Ends .overflowed machine) :
    (ofPhrases phrases).SameValues vars machine := by
  obtain ⟨fault, left, fails, _, rfl⟩ := overflows_iff.1 overflows
  obtain ⟨_, other, overflowed, same⟩ :=
    ends_of_fails (wellLinked_ofPhrases phrases) compiled fails
  obtain ⟨rfl, _⟩ := ends.unique overflowed
  exact same

theorem runsForever_iff_forever :
    (ofPhrases phrases).RunsForever ↔ container.RunsForever := by
  have linked := wellLinked_ofPhrases phrases
  constructor
  · intro forever
    exact forever_of_endless linked compiled (runsForever_iff.1 forever)
  · intro forever
    apply runsForever_iff.2
    rcases endless_or_ends (ofPhrases phrases) (State.fresh_start _) with
      endless | ⟨last, halts⟩ | ⟨fault, left, fails⟩
    · exact endless
    · obtain ⟨_, ends, _⟩ := ends_of_halts linked compiled halts
      exact absurd forever ends.not_forever
    · obtain ⟨_, _, ends, _⟩ := ends_of_fails linked compiled fails
      exact absurd forever ends.not_forever

end Whole

/-- A run and its compiled code come to the same end with the same values. -/
theorem run_agrees_with_machine {phrases : Array Phrase}
    (compiled : (ofPhrases phrases).compile = .ok container) :
    ((∃ vars, (ofPhrases phrases).Returns vars) ↔ ∃ machine, container.Ends .halted machine) ∧
      (∀ vars machine, (ofPhrases phrases).Returns vars → container.Ends .halted machine →
        (ofPhrases phrases).SameValues vars machine) ∧
      ((∃ vars, (ofPhrases phrases).Overflows vars) ↔
        ∃ machine, container.Ends .overflowed machine) ∧
      (∀ vars machine, (ofPhrases phrases).Overflows vars → container.Ends .overflowed machine →
        (ofPhrases phrases).SameValues vars machine) ∧
      ((ofPhrases phrases).RunsForever ↔ container.RunsForever) := by
  refine ⟨returns_iff_halted compiled, ?_, overflows_iff_overflowed compiled, ?_,
    runsForever_iff_forever compiled⟩
  · intro vars machine returns ends
    exact sameValues_of_returns compiled returns ends
  · intro vars machine overflows ends
    exact sameValues_of_overflows compiled overflows ends

theorem run_agrees_on_countdown :
    ∃ container machine, (ofPhrases countdown).compile = .ok container ∧
      container.Ends .halted machine ∧
      (ofPhrases countdown).SameValues ⟨#[⟨"x", 0⟩, ⟨"y", 0⟩]⟩ machine ∧
      ((ofPhrases countdown).RunsForever ↔ container.RunsForever) := by
  obtain ⟨container, compiled⟩ := compile_countdown
  obtain ⟨halts, values, _, _, forever⟩ := run_agrees_with_machine compiled
  obtain ⟨machine, ends⟩ := halts.1 ⟨_, returns_countdown⟩
  exact ⟨container, machine, compiled, ends, values _ machine returns_countdown ends, forever⟩

end Program

end Abacus
