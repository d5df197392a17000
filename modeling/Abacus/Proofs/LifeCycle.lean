import Abacus.Proofs.Reachability
import Abacus.Proofs.Runs

/-!
The life of an interpreter under any row of calls. A call that ends the run leaves a state in
which nothing happens until a reset, an interrupt makes the next call fail once and do nothing
else, and a reset gives back the state of the start, whatever came before it.
-/

namespace Abacus

inductive Call where
  | execute (cycles : Nat)
  | run
  | interrupt
  | setTrace (trace : Bool)
  | reset
deriving DecidableEq

def Call.isSignal : Call → Bool
  | .interrupt | .setTrace _ => true
  | .execute _ | .run | .reset => false

def Event.isLast : Event → Bool
  | .stopped | .failed _ => true
  | .running | .traced _ => false

namespace Program

/-- A row of calls leads from one state to another. A run without an end leads nowhere. -/
inductive Leads (program : Program) : State → List Call → State → Prop
  | none (state : State) : Leads program state [] state
  | execute {state last : State} {calls : List Call} (cycles : Nat)
      (rest : Leads program (program.execute cycles state).2 calls last) :
      Leads program state (.execute cycles :: calls) last
  | run {state after last : State} {calls : List Call} {rounds : Nat} {outcome : Option Fault}
      (ended : program.run? rounds state = some (outcome, after))
      (rest : Leads program after calls last) : Leads program state (.run :: calls) last
  | interrupt {state last : State} {calls : List Call}
      (rest : Leads program state.interrupt calls last) :
      Leads program state (.interrupt :: calls) last
  | setTrace {state last : State} {calls : List Call} (trace : Bool)
      (rest : Leads program (state.setTrace trace) calls last) :
      Leads program state (.setTrace trace :: calls) last
  | reset {state last : State} {calls : List Call}
      (rest : Leads program state.reset calls last) : Leads program state (.reset :: calls) last

/-- A call that stops or fails, and the state it leaves. -/
inductive EndsRun (program : Program) (state : State) : State → Prop
  | execute {cycles : Nat} {event : Event} {after : State}
      (called : program.execute cycles state = (event, after)) (last : event.isLast = true) :
      EndsRun program state after
  | run {rounds : Nat} {outcome : Option Fault} {after : State}
      (ended : program.run? rounds state = some (outcome, after)) : EndsRun program state after

variable {program : Program} {state after last : State} {calls : List Call}

theorem Leads.reachable (leads : program.Leads state calls last)
    (before : program.Reachable state) : program.Reachable last := by
  induction leads with
  | none => exact before
  | execute cycles _ induction => exact induction (.execute cycles before)
  | run ended _ induction => exact induction (.run before ended)
  | interrupt _ induction => exact induction (.interrupt before)
  | setTrace trace _ induction => exact induction (.setTrace trace before)
  | reset _ induction => exact induction (.reset before)

theorem done_of_cycle {cycles : Nat} {event : Event}
    (called : program.cycle cycles state = (event, after)) (ends : event.isLast = true) :
    after.done = true := by
  induction cycles generalizing state with
  | zero =>
      cases called
      cases ends
  | succ cycles induction =>
      simp only [cycle] at called
      split at called
      · cases called
        rfl
      · split at called
        · exact induction called
        · split at called
          · cases called
            cases ends
          · exact induction called
        · cases called
          rfl

theorem done_of_execute {cycles : Nat} {event : Event}
    (called : program.execute cycles state = (event, after)) (ends : event.isLast = true) :
    after.done = true := by
  simp only [execute] at called
  split at called
  · rename_i finished
    cases called
    exact finished
  · split at called
    · cases called
      rfl
    · exact done_of_cycle called ends

theorem done_of_run? {rounds : Nat} {outcome : Option Fault}
    (ended : program.run? rounds state = some (outcome, after)) : after.done = true := by
  induction rounds generalizing state with
  | zero => cases ended
  | succ rounds induction =>
      simp only [run?] at ended
      split at ended
      · exact induction ended
      · exact induction ended
      · rename_i called
        cases ended
        exact done_of_execute called rfl
      · rename_i called
        cases ended
        exact done_of_execute called rfl

theorem EndsRun.done (ends : program.EndsRun state after) : after.done = true := by
  cases ends with
  | execute called last => exact done_of_execute called last
  | run ended => exact done_of_run? ended

theorem execute_of_done (finished : state.done = true) (cycles : Nat) :
    program.execute cycles state = (.stopped, state) := by
  simp [execute, finished]

theorem run?_of_done (finished : state.done = true) (rounds : Nat) :
    program.run? (rounds + 1) state = some (none, state) := by
  simp [run?, execute_of_done finished]

theorem interrupt_of_done (finished : state.done = true) : state.interrupt = state := by
  simp [State.interrupt, finished]

/-- The state in which an interpreter rests: the run is over and only the trace flag may change. -/
theorem Leads.at_rest (leads : program.Leads state calls last) (unreset : .reset ∉ calls)
    (finished : state.done = true) :
    last.done = true ∧ last.vars = state.vars ∧ last.pc = state.pc ∧
      last.frames = state.frames := by
  induction leads with
  | none => exact ⟨finished, rfl, rfl, rfl⟩
  | execute cycles _ induction =>
      rw [execute_of_done finished] at induction
      exact induction (fun later => unreset (.tail _ later)) finished
  | @run state _ _ _ rounds _ ended _ induction =>
      cases rounds with
      | zero => cases ended
      | succ rounds =>
          rw [run?_of_done finished] at ended
          cases ended
          exact induction (fun later => unreset (.tail _ later)) finished
  | interrupt _ induction =>
      rw [interrupt_of_done finished] at induction
      exact induction (fun later => unreset (.tail _ later)) finished
  | setTrace trace _ induction => exact induction (fun later => unreset (.tail _ later)) finished
  | reset => exact absurd (.head _) unreset

theorem breakFault_eq (program : Program) (state : State) :
    program.breakFault state =
      { kind := .interrupted, place := (program.phrase? state.pc).elim .unknown Phrase.place } := by
  cases here : program.phrase? state.pc <;> simp [breakFault, here, Phrase.fault]

theorem Leads.after_signals (leads : program.Leads state calls last)
    (signals : ∀ call ∈ calls, call.isSignal = true) (running : state.done = false) :
    ∃ trace interrupted, last = { state with trace, interrupted } ∧
      (interrupted = true ↔ state.interrupted = true ∨ .interrupt ∈ calls) := by
  induction leads with
  | none state => exact ⟨state.trace, state.interrupted, rfl, by simp⟩
  | execute => cases signals _ (.head _)
  | run => cases signals _ (.head _)
  | @interrupt state _ _ _ induction =>
      have pending : state.interrupt = { state with interrupted := true } := by
        simp [State.interrupt, running]
      rw [pending] at induction
      obtain ⟨trace, interrupted, same, flag⟩ :=
        induction (fun call later => signals call (.tail _ later)) running
      exact ⟨trace, interrupted, same, by simp [flag]⟩
  | setTrace trace _ induction =>
      obtain ⟨trace, interrupted, same, flag⟩ :=
        induction (fun call later => signals call (.tail _ later)) running
      exact ⟨trace, interrupted, same, by simp [flag, State.setTrace]⟩
  | reset => cases signals _ (.head _)

theorem execute_of_interrupted (running : state.done = false) (pending : state.interrupted = true)
    (cycles : Nat) :
    program.execute cycles state =
      (.failed (program.breakFault state), { state with interrupted := false, done := true }) := by
  simp [execute, running, pending]

def Named (program : Program) (state : State) : Prop :=
  state.vars.cells.map Cell.name = program.slots.names

theorem names_store (vars : Variables) (slot : Slot) (value : Int) :
    (vars.store slot value).cells.map Cell.name = vars.cells.map Cell.name := by
  apply Array.ext
  · simp [Variables.store]
  · intro index bounded _
    simp only [Variables.store, Array.getElem_map, Array.getElem_modify]
    split <;> rfl

theorem invariant_named (program : Program) : program.Invariant program.Named where
  move named move := by
    cases move with
    | clear => exact (names_store _ _ _).trans named
    | incr => exact (names_store _ _ _).trans named
    | decr => exact (names_store _ _ _).trans named
    | _ => exact named
  failure named failure := by cases failure <;> exact named
  flags _ _ _ named := named

theorem named_of_reachable (reachable : program.Reachable state) : program.Named state := by
  apply (invariant_named program).of_reachable _ _ reachable
  · simp only [Named, State.start, Variables.ofSlots, Array.map_map]
    exact Array.map_id _
  · intro state named
    simp only [Named, State.reset, Variables.clear, Array.map_map]
    exact named

theorem reset_eq_start (reachable : program.Reachable state) :
    state.reset = (State.start program).setTrace state.trace := by
  have named := named_of_reachable reachable
  simp only [State.reset, State.setTrace, State.start, Variables.clear, Variables.ofSlots]
  rw [← named, Array.map_map]
  rfl

/-- Whatever calls came before: once a call has ended the run, nothing changes and every call says
so until a reset; an interrupt of a run that is not over makes the next call fail with one break,
at the phrase it would have gone on with, and do nothing else; and a reset leads to the state of
the start, with the trace flag as it is. -/
theorem interpreter_life_cycle (led : program.Leads (.start program) calls state) :
    (∀ after later last, program.EndsRun state after → program.Leads after later last →
        .reset ∉ later →
        (∀ cycles, program.execute cycles last = (.stopped, last)) ∧
          (∀ rounds, program.run? (rounds + 1) last = some (none, last)) ∧
          last.interrupt = last ∧ last.vars = after.vars ∧ last.pc = after.pc ∧
          last.frames = after.frames) ∧
      (∀ signals last, state.done = false → program.Leads state signals last →
        .interrupt ∈ signals → (∀ call ∈ signals, call.isSignal = true) →
        ∃ fault after,
          (∀ cycles, program.execute cycles last = (.failed fault, after)) ∧
          (∀ rounds, program.run? (rounds + 1) last = some (some fault, after)) ∧
          fault = { kind := .interrupted
                    place := (program.phrase? state.pc).elim .unknown Phrase.place } ∧
          (∀ cycles, program.execute cycles after = (.stopped, after)) ∧
          after.vars = state.vars ∧ after.pc = state.pc ∧ after.frames = state.frames) ∧
      state.reset = (State.start program).setTrace state.trace := by
  refine ⟨?_, ?_, reset_eq_start (led.reachable .start)⟩
  · intro after later last ends leads unreset
    obtain ⟨finished, vars, pc, frames⟩ := leads.at_rest unreset ends.done
    exact ⟨execute_of_done finished, run?_of_done finished, interrupt_of_done finished, vars, pc,
      frames⟩
  · intro signals last running leads asked only
    obtain ⟨trace, interrupted, rfl, flag⟩ := leads.after_signals only running
    obtain rfl := flag.2 (.inr asked)
    have broken : ∀ cycles, program.execute cycles { state with trace, interrupted := true } =
        (.failed (program.breakFault { state with trace, interrupted := true }),
          { state with trace, interrupted := false, done := true }) := by
      apply execute_of_interrupted
      · exact running
      · rfl
    refine ⟨_, _, broken, ?_, breakFault_eq _ _, execute_of_done rfl, rfl, rfl, rfl⟩
    intro rounds
    simp [run?, broken]

/-- Four phrases into the countdown: a run from there is over for good, an interrupt there names
the phrase that comes next, and a reset leads back to the start. -/
theorem interpreter_life_cycle_countdown :
    ∃ state after, (ofPhrases countdown).Leads (.start (ofPhrases countdown)) [.execute 4] state ∧
      (ofPhrases countdown).EndsRun state after ∧
      (∀ cycles, (ofPhrases countdown).execute cycles after.interrupt =
        (.stopped, after.interrupt)) ∧
      (∃ fault left, fault.place = .statement 1 "decr x" ∧
        ∀ cycles, (ofPhrases countdown).execute cycles (state.interrupt.setTrace true) =
          (.failed fault, left)) ∧
      state.reset = .start (ofPhrases countdown) := by
  have led : (ofPhrases countdown).Leads (.start (ofPhrases countdown)) [.execute 4]
      ((ofPhrases countdown).execute 4 (.start (ofPhrases countdown))).2 := .execute 4 (.none _)
  obtain ⟨atRest, broken, again⟩ := interpreter_life_cycle led
  have stops : (ofPhrases countdown).EndsRun
      ((ofPhrases countdown).execute 4 (.start (ofPhrases countdown))).2
      ((ofPhrases countdown).execute 9
        ((ofPhrases countdown).execute 4 (.start (ofPhrases countdown))).2).2 :=
    .execute rfl (by decide +kernel)
  have stopped := atRest _ [.interrupt] _ stops (.interrupt (.none _)) (by decide)
  obtain ⟨fault, left, once, _, place, _⟩ := broken [.interrupt, .setTrace true] _
    (by decide +kernel) (.interrupt (.setTrace true (.none _))) (by decide) (by decide)
  refine ⟨_, _, led, stops, stopped.1, ⟨fault, left, ?_, once⟩, again.trans ?_⟩
  · rw [place]
    decide +kernel
  · have untraced : ((ofPhrases countdown).execute 4 (.start (ofPhrases countdown))).2.trace =
        false := by decide +kernel
    rw [untraced]
    rfl

end Program

end Abacus
