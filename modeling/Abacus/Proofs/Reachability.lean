import Abacus.Proofs.Moves

/-!
The states that calls can lead to. What every move and every failure keeps, and what does not
depend on the flags, holds of each of them, if it holds at the start and after a reset.
-/

namespace Abacus.Program

/-- The states that a row of calls can lead to from the start. -/
inductive Reachable (program : Program) : State → Prop
  | start : Reachable program (.start program)
  | execute {state : State} (cycles : Nat) (before : Reachable program state) :
      Reachable program (program.execute cycles state).2
  | run {state after : State} {rounds : Nat} {outcome : Option Fault}
      (before : Reachable program state)
      (ended : program.run? rounds state = some (outcome, after)) : Reachable program after
  | interrupt {state : State} (before : Reachable program state) :
      Reachable program state.interrupt
  | setTrace {state : State} (trace : Bool) (before : Reachable program state) :
      Reachable program (state.setTrace trace)
  | reset {state : State} (before : Reachable program state) : Reachable program state.reset

/-- A property of states that steps keep and that does not look at the flags. -/
structure Invariant (program : Program) (holds : State → Prop) : Prop where
  move : ∀ {state after : State}, holds state → program.Move state after → holds after
  failure : ∀ {state left : State} {fault : Fault},
    holds state → program.Failure state fault left → holds left
  flags : ∀ {state : State} (trace done interrupted : Bool),
    holds state → holds { state with trace, done, interrupted }

variable {program : Program} {holds : State → Prop}

/-- A call with a budget keeps an invariant, and if it fails, it fails in a state that has it. -/
theorem Invariant.cycle (invariant : program.Invariant holds) (cycles : Nat) {state : State}
    (before : holds state) :
    holds (program.cycle cycles state).2 ∧
      ∀ fault, (program.cycle cycles state).1 = .failed fault →
        ∃ last left, holds last ∧ program.Failure last fault left := by
  induction cycles generalizing state with
  | zero => exact ⟨before, by simp [Program.cycle]⟩
  | succ cycles induction =>
      cases present : program.phrase? state.pc with
      | none =>
          simp only [Program.cycle, present]
          exact ⟨invariant.flags _ _ _ before, by simp⟩
      | some phrase =>
          have inside : state.pc < program.size := by
            simp only [phrase?, Option.map_eq_some_iff] at present
            obtain ⟨_, here, _⟩ := present
            exact lt_size_of_entry here
          rcases move_or_failure inside with ⟨next, move⟩ | ⟨fault, left, failure⟩
          · have kept := invariant.move before move
            rcases step_of_move move with went | went
            · simp only [Program.cycle, present, went]
              cases next.trace with
              | true => exact ⟨kept, by simp⟩
              | false => exact induction kept
            · simp only [Program.cycle, present, went]
              exact induction kept
          · simp only [Program.cycle, present, step_of_failure failure]
            refine ⟨invariant.flags _ _ _ (invariant.failure before failure), ?_⟩
            intro other same
            cases same
            exact ⟨state, left, before, failure⟩

/-- As for a budget, unless the call was interrupted. -/
theorem Invariant.execute (invariant : program.Invariant holds) (cycles : Nat) {state : State}
    (before : holds state) :
    holds (program.execute cycles state).2 ∧
      ∀ fault, (program.execute cycles state).1 = .failed fault →
        fault.kind = .interrupted ∨
          ∃ last left, holds last ∧ program.Failure last fault left := by
  unfold Program.execute
  split
  · exact ⟨before, by simp⟩
  · split
    · refine ⟨invariant.flags _ _ _ before, ?_⟩
      intro fault same
      cases same
      left
      unfold breakFault
      split <;> rfl
    · obtain ⟨kept, fails⟩ := invariant.cycle cycles before
      exact ⟨kept, fun fault same => .inr (fails fault same)⟩

theorem Invariant.run (invariant : program.Invariant holds) {rounds : Nat}
    {state after : State} {outcome : Option Fault} (before : holds state)
    (ended : program.run? rounds state = some (outcome, after)) :
    holds after ∧ ∀ fault, outcome = some fault →
      fault.kind = .interrupted ∨
        ∃ last left, holds last ∧ program.Failure last fault left := by
  induction rounds generalizing state with
  | zero => cases ended
  | succ rounds induction =>
      obtain ⟨kept, fails⟩ := invariant.execute roundCycles before
      simp only [run?] at ended
      cases called : program.execute roundCycles state with
      | mk event next =>
          rw [called] at ended kept fails
          cases event with
          | running => exact induction kept ended
          | traced text => exact induction kept ended
          | stopped =>
              cases ended
              exact ⟨kept, by simp⟩
          | failed fault =>
              cases ended
              exact ⟨kept, fun other same => fails other (by rw [Option.some.inj same])⟩

theorem Invariant.of_reachable (invariant : program.Invariant holds)
    (start : holds (.start program)) (reset : ∀ {state}, holds state → holds state.reset)
    {state : State} (reachable : program.Reachable state) : holds state := by
  induction reachable with
  | start => exact start
  | execute cycles _ induction => exact (invariant.execute cycles induction).1
  | run _ ended induction => exact (invariant.run induction ended).1
  | interrupt _ induction =>
      unfold State.interrupt
      split
      · exact induction
      · exact invariant.flags _ _ _ induction
  | setTrace trace _ induction => exact invariant.flags _ _ _ induction
  | reset _ induction => exact reset induction

end Abacus.Program
