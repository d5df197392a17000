import Abacus.Proofs.Budgets
import Abacus.Proofs.Linking

/-!
Where a run fails. A statement that fails leaves the variables and the address as it found them,
and the open blocks too, unless it opened one too many; its fault names its own phrase. Main
statement: that holds of every call that fails without having been interrupted, whatever calls
came before it, and what the statement found is what the phrases before it came to.
-/

namespace Abacus

def State.quiet (state : State) : State :=
  { state with trace := false, done := false, interrupted := false }

namespace Program

variable {program : Program} {state after last left stuck : State} {fault : Fault} {event : Event}

section Statement

variable {phrase : Phrase} {op : Op} (here : program.At state.pc phrase op)
include here

end Statement

/-- How a call with a budget ends in `last`, with so many cycles left. -/
inductive Closes (program : Program) (last : State) : (unused : Nat) → Event → State → Prop
  | running : Closes program last 0 .running last
  | traced (unused : Nat) (text : String) : Closes program last unused (.traced text) last
  | stopped (unused : Nat) (past : program.size ≤ last.pc) :
      Closes program last (unused + 1) .stopped { last with done := true }
  | failed (unused : Nat) {fault : Fault} {left : State}
      (failure : program.Failure last fault left) :
      Closes program last (unused + 1) (.failed fault) { left with done := true }

theorem cycle_closes {cycles : Nat} (called : program.cycle cycles state = (event, after)) :
    ∃ ran unused last, cycles = ran + unused ∧ Steps program.Move ran state last ∧
      program.Closes last unused event after := by
  induction cycles generalizing state with
  | zero =>
      cases called
      exact ⟨0, 0, after, rfl, .none after, .running⟩
  | succ cycles induction =>
      -- What the rest of the budget comes to, one move on.
      have onward : ∀ {next : State}, program.Move state next →
          program.cycle cycles next = (event, after) →
          ∃ ran unused last, cycles + 1 = ran + unused ∧ Steps program.Move ran state last ∧
            program.Closes last unused event after := by
        intro next move rest
        obtain ⟨ran, unused, last, whole, steps, closes⟩ := induction rest
        exact ⟨ran + 1, unused, last, by omega, .cons move steps, closes⟩
      by_cases inside : state.pc < program.size
      · obtain ⟨_, here⟩ : ∃ entry, program.entries[state.pc]? = some entry :=
          ⟨_, Array.getElem?_eq_getElem inside⟩
        simp only [cycle, phrase?_of_entry here] at called
        rcases move_or_failure inside with ⟨next, move⟩ | ⟨fault, left, failure⟩
        · rcases step_of_move move with went | went
          · simp only [went] at called
            split at called
            · cases called
              exact ⟨1, cycles, after, Nat.add_comm cycles 1, .single move, .traced cycles _⟩
            · exact onward move called
          · simp only [went] at called
            exact onward move called
        · simp only [step_of_failure failure] at called
          cases called
          exact ⟨0, cycles + 1, state, (Nat.zero_add _).symm, .none state, .failed cycles failure⟩
      · have past := Nat.le_of_not_lt inside
        simp only [cycle, phrase?_past past] at called
        cases called
        exact ⟨0, cycles + 1, state, (Nat.zero_add _).symm, .none state, .stopped cycles past⟩

theorem steps_quiet {count : Nat} (steps : Steps program.Move count state after) :
    Steps program.Move count state.quiet after.quiet := by
  induction steps with
  | none state => exact .none _
  | cons move _ induction => exact .cons (move.withFlags false false false) induction

theorem steps_of_execute {cycles : Nat} (called : program.execute cycles state = (event, after))
    (running : after.done = false) :
    state.done = false ∧ ∃ ran, Steps program.Move ran state after := by
  rcases open_cases state with finished | ⟨going, pending⟩ | ⟨going, undisturbed⟩
  · rw [execute_of_done finished] at called
    cases called
    rw [finished] at running
    cases running
  · rw [execute_of_interrupted going pending] at called
    cases called
    cases running
  · rw [execute_of_open going undisturbed] at called
    obtain ⟨ran, _, last, _, steps, closes⟩ := cycle_closes called
    cases closes with
    | running => exact ⟨going, ran, steps⟩
    | traced => exact ⟨going, ran, steps⟩
    | stopped => cases running
    | failed => cases running

/-- Whatever calls were made, a run that is not over is where moves from the start lead. -/
theorem steps_of_reachable (reachable : program.Reachable state) (running : state.done = false) :
    ∃ count, Steps program.Move count (.start program) state.quiet := by
  induction reachable with
  | start => exact ⟨0, .none _⟩
  | execute cycles _ induction =>
      obtain ⟨going, ran, steps⟩ := steps_of_execute rfl running
      obtain ⟨count, earlier⟩ := induction going
      exact ⟨count + ran, earlier.append (steps_quiet steps)⟩
  | run _ ended =>
      rw [done_of_run? ended] at running
      cases running
  | @interrupt state _ induction =>
      cases going : state.done with
      | true =>
          rw [interrupt_of_done going, going] at running
          cases running
      | false =>
          have same : state.interrupt.quiet = state.quiet := by
            simp [State.interrupt, going, State.quiet]
          rw [same]
          exact induction going
  | setTrace trace _ induction => exact induction running
  | reset before _ =>
      rw [reset_eq_start before]
      exact ⟨0, .none _⟩

/-- A call that fails and was not interrupted fails at the phrase where moves have led it. -/
theorem failure_of_execute {cycles : Nat}
    (failed : program.execute cycles state = (.failed fault, left))
    (unasked : fault.kind ≠ .interrupted) :
    state.done = false ∧ state.interrupted = false ∧
      ∃ ran last stuck, ran < cycles ∧ Steps program.Move ran state last ∧
        program.Failure last fault stuck ∧ left = { stuck with done := true } := by
  rcases open_cases state with finished | ⟨going, pending⟩ | ⟨going, undisturbed⟩
  · rw [execute_of_done finished] at failed
    cases failed
  · rw [execute_of_interrupted going pending, breakFault_eq] at failed
    cases failed
    exact absurd rfl unasked
  · rw [execute_of_open going undisturbed] at failed
    obtain ⟨ran, unused, last, whole, steps, closes⟩ := cycle_closes failed
    cases closes with
    | failed unused failure =>
        exact ⟨going, undisturbed, ran, last, _, by omega, steps, failure, rfl⟩

end Program

end Abacus
