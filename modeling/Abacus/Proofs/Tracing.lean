import Abacus.Proofs.Budgets
import Abacus.Proofs.Linking

/-!
Traced runs beside untraced ones. Called for one phrase at a time, the two go side by side: they
differ in the flag, and in that the traced one reports each statement it has run. Main statement: a
traced run comes to the end of the untraced one, and what it shows on the way is the history of the
untraced run, statement by statement.
-/

namespace Abacus

namespace Program

/-- The history of the first `count` phrases of a run: the statements that were run, in order, each
with the variables after it. Blank phrases and comments are not among them, nor is a phrase that
failed. -/
def history (program : Program) : (count : Nat) → State → List (String × Variables)
  | 0, _ => []
  | count + 1, state =>
    match program.execute 1 state, program.phrase? state.pc with
    | (.running, after), some phrase =>
      if phrase.isSkipped then program.history count after
      else (phrase.text, after.vars) :: program.history count after
    | _, _ => []

variable {program : Program} {state after : State}

theorem history_isPrefix {few many : Nat} (fewer : few ≤ many) (state : State) :
    program.history few state <+: program.history many state := by
  induction few generalizing many state with
  | zero => exact List.nil_prefix
  | succ few induction =>
      obtain ⟨many, rfl⟩ := Nat.exists_eq_add_one_of_ne_zero (Nat.ne_zero_of_lt fewer)
      have rest := fun after => induction (Nat.le_of_succ_le_succ fewer) after
      simp only [history]
      split
      · split
        · exact rest _
        · exact List.prefix_cons_inj _ |>.2 (rest _)
      · exact List.prefix_rfl

section OneCycle

theorem cycle_one_past (past : program.size ≤ state.pc) :
    program.cycle 1 state = (.stopped, { state with done := true }) := by
  simp [cycle, phrase?_past past]

theorem cycle_one_skipped {phrase : Phrase}
    (here : program.entries[state.pc]? = some ⟨phrase, .skipped⟩) :
    program.cycle 1 state = (.running, { state with pc := state.pc + 1 }) := by
  simp [cycle, phrase?_of_entry here, step, here]

theorem cycle_one_ran {phrase : Phrase} {op : Op} (here : program.At state.pc phrase op)
    (move : program.Move state after) :
    program.cycle 1 state = (if state.trace then .traced phrase.text else .running, after) := by
  have went := step_of_move_kept move here (by simp)
  simp only [cycle, phrase?_of_entry here, went, (flags_of_move move).1]
  split <;> rfl

theorem cycle_one_failed {fault : Fault} {left : State}
    (failure : program.Failure state fault left) :
    program.cycle 1 state = (.failed fault, { left with done := true }) := by
  obtain ⟨_, here⟩ : ∃ entry, program.entries[state.pc]? = some entry :=
    ⟨_, Array.getElem?_eq_getElem (pc_lt_of_failure failure)⟩
  simp [cycle, phrase?_of_entry here, step_of_failure failure]

end OneCycle

theorem isSkipped_of_at (linked : program.WellLinked) {address : Nat} {phrase : Phrase} {op : Op}
    (here : program.At address phrase op) : phrase.isSkipped = false := by
  have faithful := linked.faithful _ (Array.mem_of_getElem? here)
  cases faithful with
  | op spelled => exact spelled.1

theorem isSkipped_of_skipped (linked : program.WellLinked) {address : Nat} {phrase : Phrase}
    (here : program.entries[address]? = some ⟨phrase, .skipped⟩) : phrase.isSkipped = true := by
  have faithful := linked.faithful _ (Array.mem_of_getElem? here)
  cases faithful with
  | skipped blank => exact blank

section SideBySide

variable (linked : program.WellLinked) (untraced : state.trace = false)
include linked untraced

theorem execute_one_setTrace :
    (∃ phrase after, program.phrase? state.pc = some phrase ∧ after.trace = false ∧
        program.execute 1 state = (.running, after) ∧
        program.execute 1 (state.setTrace true) =
          (if phrase.isSkipped then .running else .traced phrase.text, after.setTrace true)) ∨
      ∃ event after, event.isLast = true ∧ program.execute 1 state = (event, after) ∧
        program.execute 1 (state.setTrace true) = (event, after.setTrace true) := by
  rcases open_cases state with finished | ⟨running, pending⟩ | ⟨running, undisturbed⟩
  · right
    have finishedTraced : (state.setTrace true).done = true := finished
    exact ⟨_, _, rfl, execute_of_done finished 1, execute_of_done finishedTraced 1⟩
  · right
    have runningTraced : (state.setTrace true).done = false := running
    have pendingTraced : (state.setTrace true).interrupted = true := pending
    exact ⟨_, _, rfl, execute_of_interrupted running pending 1,
      execute_of_interrupted runningTraced pendingTraced 1⟩
  · have runningTraced : (state.setTrace true).done = false := running
    have undisturbedTraced : (state.setTrace true).interrupted = false := undisturbed
    rw [execute_of_open running undisturbed, execute_of_open runningTraced undisturbedTraced]
    by_cases inside : state.pc < program.size
    · obtain ⟨⟨phrase, result⟩, here⟩ : ∃ entry, program.entries[state.pc]? = some entry :=
        ⟨_, Array.getElem?_eq_getElem inside⟩
      rcases move_or_failure inside with ⟨after, move⟩ | ⟨fault, left, failure⟩
      · left
        cases result with
        | skipped =>
            have hereTraced : program.entries[(state.setTrace true).pc]? =
                some ⟨phrase, .skipped⟩ := here
            refine ⟨phrase, { state with pc := state.pc + 1 }, phrase?_of_entry here, untraced,
              cycle_one_skipped here, ?_⟩
            rw [if_pos (isSkipped_of_skipped linked here)]
            exact cycle_one_skipped hereTraced
        | broken fault => exact absurd move (final_of_failure (.broken here) after)
        | op op =>
            have kept := isSkipped_of_at linked here
            have hereTraced : program.At (state.setTrace true).pc phrase op := here
            have went := cycle_one_ran here move
            have shown := cycle_one_ran hereTraced (move.setTrace true)
            rw [untraced] at went
            refine ⟨phrase, after, phrase?_of_entry here, ?_, went, ?_⟩
            · exact (flags_of_move move).1.trans untraced
            · rw [kept]
              exact shown
      · right
        exact ⟨_, _, rfl, cycle_one_failed failure, cycle_one_failed (failure.setTrace true)⟩
    · right
      have past := Nat.le_of_not_lt inside
      have pastTraced : program.size ≤ (state.setTrace true).pc := past
      exact ⟨_, _, rfl, cycle_one_past past, cycle_one_past pastTraced⟩

/-- A traced run shows the history of the untraced one, and ends as it does. -/
theorem account_setTrace (count : Nat) :
    program.account count (fun _ => 1) (state.setTrace true) =
      { shown := program.history count state
        ended? := (program.account count (fun _ => 1) state).ended?.map
          fun ended => (ended.1, ended.2.setTrace true) } := by
  induction count generalizing state with
  | zero => rfl
  | succ count induction =>
      rcases execute_one_setTrace linked untraced with
        ⟨phrase, after, present, onward, went, shown⟩ | ⟨event, after, last, ended, endedTraced⟩
      · rw [account_succ shown, account_succ went, induction onward, history, went, present]
        dsimp only
        cases phrase.isSkipped <;> rfl
      · rw [account_succ endedTraced, account_succ ended, history, ended]
        cases event with
        | running => cases last
        | traced text => cases last
        | stopped => rfl
        | failed fault => rfl

/-- Calls with any budgets show as much of the history as they come to. -/
theorem account_traced {budgets : Nat → Nat} (positive : ∀ call, 0 < budgets call) (calls : Nat) :
    ∃ count, calls ≤ count ∧
      program.account calls budgets (state.setTrace true) =
        { shown := program.history count state
          ended? := (program.account count (fun _ => 1) state).ended?.map
            fun ended => (ended.1, ended.2.setTrace true) } := by
  obtain ⟨count, enough, same⟩ := account_eq_single positive calls (state.setTrace true)
  exact ⟨count, enough, same.trans (account_setTrace linked untraced count)⟩

theorem ended_traced_iff {budgets : Nat → Nat} (positive : ∀ call, 0 < budgets call)
    {outcome : Option Fault} :
    (∃ calls, (program.account calls budgets (state.setTrace true)).ended? =
        some (outcome, after)) ↔
      ∃ rounds last, program.run? rounds state = some (outcome, last) ∧
        after = last.setTrace true := by
  have whole : ∀ last, (∃ count,
      (program.account count (fun _ => 1) state).ended? = some (outcome, last)) ↔
        ∃ rounds, program.run? rounds state = some (outcome, last) :=
    fun last => ended_iff_run? fun _ => Nat.one_pos
  rw [ended_iff_single positive]
  simp only [account_setTrace linked untraced, Option.map_eq_some_iff]
  constructor
  · rintro ⟨count, ⟨_, last⟩, closed, same⟩
    obtain ⟨rfl, rfl⟩ := Prod.mk.inj same
    obtain ⟨rounds, ended⟩ := (whole last).1 ⟨count, closed⟩
    exact ⟨rounds, last, ended, rfl⟩
  · rintro ⟨rounds, last, ended, rfl⟩
    obtain ⟨count, closed⟩ := (whole last).2 ⟨rounds, ended⟩
    exact ⟨count, _, closed, rfl⟩

/-- A traced run that has ended has shown all there is. -/
theorem history_isPrefix_of_ended {budgets : Nat → Nat} (positive : ∀ call, 0 < budgets call)
    {calls : Nat} {ended : Option Fault × State}
    (closed : (program.account calls budgets (state.setTrace true)).ended? = some ended)
    (count : Nat) :
    program.history count state <+:
      (program.account calls budgets (state.setTrace true)).shown := by
  obtain ⟨shown, _, same⟩ := account_eq_single positive calls (state.setTrace true)
  have whole := account_setTrace linked untraced (count + shown)
  rw [Nat.add_comm, account_of_ended (same ▸ closed), ← same] at whole
  rw [whole]
  exact history_isPrefix (Nat.le_add_left count shown) state

end SideBySide

def tracedAccount (program : Program) (calls : Nat) (budgets : Nat → Nat) : Account :=
  program.account calls budgets ((State.start program).setTrace true)

/-- Tracing observes a run and does not disturb it. However the calls are made: the traced run
comes to the end of the untraced one, in a state that differs from its last one in the trace flag
only, and has no end if that has none; what it has shown at any time is the history of so many
phrases of the untraced run; every part of that history is shown at some time; and nothing of it
is missing when the run has ended. -/
theorem tracing_observes (phrases : Array Phrase) {budgets : Nat → Nat}
    (positive : ∀ call, 0 < budgets call) :
    (∀ outcome after,
        (∃ calls, ((ofPhrases phrases).tracedAccount calls budgets).ended? =
            some (outcome, after)) ↔
          ∃ rounds last, (ofPhrases phrases).run? rounds (.start (ofPhrases phrases)) =
            some (outcome, last) ∧ after = last.setTrace true) ∧
      ((∀ calls, ((ofPhrases phrases).tracedAccount calls budgets).ended? = none) ↔
        (ofPhrases phrases).RunsForever) ∧
      (∀ calls, ∃ count, calls ≤ count ∧
        ((ofPhrases phrases).tracedAccount calls budgets).shown =
          (ofPhrases phrases).history count (.start (ofPhrases phrases))) ∧
      (∀ count, ∃ calls, (ofPhrases phrases).history count (.start (ofPhrases phrases)) <+:
        ((ofPhrases phrases).tracedAccount calls budgets).shown) ∧
      ∀ calls ended, ((ofPhrases phrases).tracedAccount calls budgets).ended? = some ended →
        ∀ count, (ofPhrases phrases).history count (.start (ofPhrases phrases)) <+:
          ((ofPhrases phrases).tracedAccount calls budgets).shown := by
  have linked := wellLinked_ofPhrases phrases
  have untraced : (State.start (ofPhrases phrases)).trace = false := rfl
  have ends : ∀ outcome after,
      (∃ calls, ((ofPhrases phrases).tracedAccount calls budgets).ended? =
          some (outcome, after)) ↔
        ∃ rounds last, (ofPhrases phrases).run? rounds (.start (ofPhrases phrases)) =
          some (outcome, last) ∧ after = last.setTrace true :=
    fun outcome after => ended_traced_iff linked untraced positive
  refine ⟨ends, ?_, ?_, ?_, ?_⟩
  · constructor
    · intro endless rounds
      apply Option.eq_none_iff_forall_ne_some.2
      intro ⟨outcome, last⟩ ended
      obtain ⟨calls, closed⟩ := (ends outcome _).2 ⟨rounds, last, ended, rfl⟩
      rw [endless] at closed
      cases closed
    · intro endless calls
      apply Option.eq_none_iff_forall_ne_some.2
      intro ⟨outcome, after⟩ closed
      obtain ⟨rounds, last, ended, _⟩ := (ends outcome after).1 ⟨calls, closed⟩
      rw [endless] at ended
      cases ended
  · intro calls
    obtain ⟨count, enough, same⟩ := account_traced linked untraced positive calls
    exact ⟨count, enough, by rw [tracedAccount, same]⟩
  · intro count
    obtain ⟨more, enough, same⟩ := account_traced linked untraced positive count
    refine ⟨count, ?_⟩
    rw [tracedAccount, same]
    exact history_isPrefix enough _
  · intro calls ended closed count
    exact history_isPrefix_of_ended linked untraced positive closed count

def remarkedLoop : Array Phrase :=
  #["incr x", "# up", "incr x", "while x", "", "decr x", "end", "frob"].map (Phrase.mk 1)

/-- The run goes twice through the loop and fails behind it. Calls of one, two and three cycles in
turn show its seven statements. -/
theorem tracing_observes_remarkedLoop :
    (∀ call, 0 < call % 3 + 1) ∧
      ∃ calls after,
        ((ofPhrases remarkedLoop).tracedAccount calls (fun call => call % 3 + 1)).ended? =
          some (some ⟨.badStatement, .statement 1 "frob", .unknownInstruction⟩, after) ∧
        after.pc = 7 ∧ after.vars = ⟨#[⟨"x", 0⟩]⟩ ∧
        [("incr x", 1), ("incr x", 2), ("while x", 2), ("decr x", 1), ("end", 1), ("decr x", 0),
            ("end", 0)].map (fun shown => (shown.1, ⟨#[⟨"x", shown.2⟩]⟩)) <+:
          ((ofPhrases remarkedLoop).tracedAccount calls (fun call => call % 3 + 1)).shown := by
  have positive : ∀ call, 0 < call % 3 + 1 := fun call => Nat.succ_pos _
  have answer : ((ofPhrases remarkedLoop).run? 1 (.start (ofPhrases remarkedLoop))).map
      (fun ended => (ended.1, ended.2.pc, ended.2.vars)) =
        some (some ⟨.badStatement, .statement 1 "frob", .unknownInstruction⟩, 7,
          ⟨#[⟨"x", 0⟩]⟩) := by
    decide +kernel
  have statements : (ofPhrases remarkedLoop).history 12 (.start (ofPhrases remarkedLoop)) =
      [("incr x", 1), ("incr x", 2), ("while x", 2), ("decr x", 1), ("end", 1), ("decr x", 0),
        ("end", 0)].map fun shown => (shown.1, ⟨#[⟨"x", shown.2⟩]⟩) := by
    decide +kernel
  obtain ⟨⟨outcome, last⟩, ended, same⟩ := Option.map_eq_some_iff.1 answer
  simp only [Prod.mk.injEq] at same
  obtain ⟨rfl, pc, vars⟩ := same
  obtain ⟨ends, _, _, _, complete⟩ := tracing_observes remarkedLoop positive
  obtain ⟨calls, closed⟩ := (ends _ _).2 ⟨1, last, ended, rfl⟩
  refine ⟨positive, calls, _, closed, pc, vars, ?_⟩
  rw [← statements]
  exact complete calls _ closed 12

end Program

end Abacus
