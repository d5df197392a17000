import Abacus.Proofs.Runs
import Abacus.Proofs.Stripping

/-!
Runs without the skipped phrases. A move at a skipped phrase leaves the run where it was among the
kept ones, and any other move is one of the shorter program. Main statements: whole runs have the
same end, and traced runs, watched in calls of any budgets, show the same.
-/

namespace Abacus

namespace Program

variable {short program : Program} {state after left : State}

theorem Strips.start (strips : Strips short program) :
    (State.start program).renumber program.rank = .start short := by
  simp [State.start, State.renumber, strips.slots, rank]

theorem Strips.entry_cases (strips : Strips short program) (inside : state.pc < program.size) :
    (∃ phrase, program.entries[state.pc]? = some ⟨phrase, .skipped⟩) ∨
      ∃ item, program.entries[state.pc]? = some item ∧ item.linked ≠ .skipped ∧
        short.entries[program.rank state.pc]? = some item := by
  obtain ⟨⟨phrase, linked⟩, here⟩ : ∃ item, program.entries[state.pc]? = some item :=
    ⟨_, Array.getElem?_eq_getElem inside⟩
  by_cases skipped : linked = .skipped
  · subst skipped
    exact .inl ⟨phrase, here⟩
  · exact .inr ⟨_, here, skipped, (strips.kept here skipped).1⟩

/-- At a skipped phrase a run stays where it is among the kept ones. -/
theorem Strips.skip (strips : Strips short program) {phrase : Phrase}
    (here : program.entries[state.pc]? = some ⟨phrase, .skipped⟩) :
    State.renumber program.rank { state with pc := state.pc + 1 } =
      state.renumber program.rank := by
  simp [State.renumber, strips.rank_skipped here]

theorem Strips.move (strips : Strips short program) (rooted : program.AllRooted state.frames)
    (move : program.Move state after) :
    (after.renumber program.rank = state.renumber program.rank ∧ after.pc = state.pc + 1) ∨
      short.Move (state.renumber program.rank) (after.renumber program.rank) := by
  rcases strips.entry_cases (pc_lt_of_move move) with ⟨phrase, here⟩ | ⟨item, here, kept, there⟩
  · left
    obtain rfl := program.move_deterministic _ _ _ move (.skip here)
    exact ⟨strips.skip here, rfl⟩
  · right
    apply move_of_step (lt_size_of_entry there)
    rw [strips.step rooted here kept]
    rcases step_of_move move with went | went
    · exact .inl (by rw [went]; rfl)
    · exact .inr (by rw [went]; rfl)

theorem Strips.failure (strips : Strips short program) (rooted : program.AllRooted state.frames)
    {fault : Fault} (failure : program.Failure state fault left) :
    short.Failure (state.renumber program.rank) fault (left.renumber program.rank) := by
  have failed := step_of_failure failure
  rcases strips.entry_cases (pc_lt_of_failure failure) with
    ⟨phrase, here⟩ | ⟨item, here, kept, there⟩
  · rcases step_of_move (.skip here) with went | went <;> simp [went] at failed
  · apply failure_of_step (lt_size_of_entry there)
    rw [strips.step rooted here kept, failed]
    rfl

/-- A row of moves is a shorter row of the shorter program. As many moves as there are phrases
cannot all be at skipped ones. -/
theorem Strips.steps (strips : Strips short program) {count : Nat}
    (rooted : program.AllRooted state.frames) (inside : state.pc ≤ program.size)
    (steps : Steps program.Move count state after) :
    ∃ fewer, Steps short.Move fewer (state.renumber program.rank) (after.renumber program.rank) ∧
      count + state.pc ≤ fewer * (program.size + 1) + after.pc ∧
      program.AllRooted after.frames ∧ after.pc ≤ program.size := by
  induction steps with
  | none => exact ⟨0, .none _, by omega, rooted, inside⟩
  | cons move _ induction =>
      obtain ⟨fewer, rest, enough, last⟩ :=
        induction (rooted.move move) (pc_le_of_move rooted move)
      -- A move at a skipped phrase pays with the address, any other one with a whole program.
      rcases strips.move rooted move with ⟨same, next⟩ | first
      · rw [same] at rest
        exact ⟨fewer, rest, by omega, last⟩
      · refine ⟨fewer + 1, .cons first rest, ?_, last⟩
        rw [Nat.add_mul]
        omega

section Whole

variable (strips : Strips short program)
include strips

theorem Strips.halts (halts : program.Halts (.start program) after) :
    short.Halts (.start short) (after.renumber program.rank) := by
  obtain ⟨⟨_, steps⟩, past⟩ := halts
  obtain ⟨fewer, rest, -⟩ := strips.steps (allRooted_empty program) (Nat.zero_le _) steps
  rw [strips.start] at rest
  exact ⟨⟨fewer, rest⟩, Nat.le_of_eq (strips.rank_past past).symm⟩

theorem Strips.fails {fault : Fault} (fails : program.Fails (.start program) fault left) :
    short.Fails (.start short) fault (left.renumber program.rank) := by
  obtain ⟨last, ⟨_, steps⟩, failure⟩ := fails
  obtain ⟨fewer, rest, -, rooted, -⟩ :=
    strips.steps (allRooted_empty program) (Nat.zero_le _) steps
  rw [strips.start] at rest
  exact ⟨_, ⟨fewer, rest⟩, strips.failure rooted failure⟩

theorem Strips.endless (endless : program.Endless (.start program)) :
    short.Endless (.start short) := by
  intro count
  obtain ⟨after, steps⟩ := endless (count * (program.size + 1) + program.size)
  obtain ⟨fewer, rest, enough, -, inside⟩ :=
    strips.steps (allRooted_empty program) (Nat.zero_le _) steps
  rw [strips.start] at rest
  have more : count ≤ fewer := by
    apply Nat.le_of_mul_le_mul_right (c := program.size + 1) _ (Nat.succ_pos _)
    omega
  exact rest.shorten more

theorem Strips.returns_iff {vars : Variables} : program.Returns vars ↔ short.Returns vars := by
  rw [Program.returns_iff, Program.returns_iff]
  constructor
  · rintro ⟨last, halts, rfl⟩
    exact ⟨_, strips.halts halts, rfl⟩
  · rintro ⟨last, halts, rfl⟩
    rcases endless_or_ends program (State.fresh_start _) with
      endless | ⟨other, others⟩ | ⟨fault, left, fails⟩
    · exact absurd (strips.endless endless) halts.not_endless
    · rw [halts.unique (strips.halts others)]
      exact ⟨other, others, rfl⟩
    · exact absurd (strips.fails fails) halts.not_fails

theorem Strips.failsWith_iff {fault : Fault} {vars : Variables} :
    program.FailsWith fault vars ↔ short.FailsWith fault vars := by
  rw [Program.failsWith_iff, Program.failsWith_iff]
  constructor
  · rintro ⟨left, fails, rfl⟩
    exact ⟨_, strips.fails fails, rfl⟩
  · rintro ⟨left, fails, rfl⟩
    rcases endless_or_ends program (State.fresh_start _) with
      endless | ⟨last, halts⟩ | ⟨other, others, failing⟩
    · exact absurd (strips.endless endless) fails.not_endless
    · exact absurd fails (strips.halts halts).not_fails
    · obtain ⟨rfl, rfl⟩ := fails.unique (strips.fails failing)
      exact ⟨others, failing, rfl⟩

theorem Strips.runsForever_iff : program.RunsForever ↔ short.RunsForever := by
  rw [Program.runsForever_iff, Program.runsForever_iff]
  refine ⟨strips.endless, fun endless => ?_⟩
  rcases endless_or_ends program (State.fresh_start _) with
    whole | ⟨last, halts⟩ | ⟨fault, left, fails⟩
  · exact whole
  · exact absurd endless (strips.halts halts).not_endless
  · exact absurd endless (strips.fails fails).not_endless

end Whole

/-- What there is to see of a run: the texts that were traced, each with the variables after it,
and how the run ended, if it did. -/
structure View where
  shown : List (String × Variables) := []
  ended : Option (Option Fault × Variables) := none

/-- What so many calls show, of `cycles` cycles each. -/
def watch (program : Program) (cycles : Nat) : (calls : Nat) → State → View
  | 0, _ => {}
  | calls + 1, state =>
    match program.execute cycles state with
    | (.running, after) => program.watch cycles calls after
    | (.traced text, after) =>
      let rest := program.watch cycles calls after
      { rest with shown := (text, after.vars) :: rest.shown }
    | (.stopped, after) => { ended := some (none, after.vars) }
    | (.failed fault, after) => { ended := some (some fault, after.vars) }

structure Watched (program : Program) (state : State) : Prop where
  traced : state.trace = true
  open_ : state.done = false
  undisturbed : state.interrupted = false
  rooted : program.AllRooted state.frames

theorem Watched.move (watched : program.Watched state) (move : program.Move state after) :
    program.Watched after := by
  obtain ⟨trace, done, interrupted⟩ := flags_of_move move
  exact ⟨trace.trans watched.traced, done.trans watched.open_,
    interrupted.trans watched.undisturbed, watched.rooted.move move⟩

theorem Watched.execute (watched : program.Watched state) (cycles : Nat) :
    program.execute cycles state = program.cycle cycles state := by
  simp [Program.execute, watched.open_, watched.undisturbed]

theorem Watched.execute_renumber (watched : program.Watched state) (place : Nat → Nat)
    (cycles : Nat) :
    short.execute cycles (state.renumber place) = short.cycle cycles (state.renumber place) := by
  simp [Program.execute, State.renumber, watched.open_, watched.undisturbed]

/-- A call that does not use up its cycles: it ends with an event with which every call ends that
is made of the shorter program at the same place. -/
def Answers (short program : Program) (cycles : Nat) (state : State) : Prop :=
  ∃ event after, program.cycle cycles state = (event, after) ∧ event ≠ .running ∧
    (∀ text, event = .traced text → program.Watched after) ∧
    ∀ other, short.cycle (other + 1) (state.renumber program.rank) =
      (event, after.renumber program.rank)

theorem Strips.answers_past (strips : Strips short program) (past : program.size ≤ state.pc)
    (cycles : Nat) : Answers short program (cycles + 1) state := by
  refine ⟨.stopped, { state with done := true }, ?_, by simp, by simp, ?_⟩
  · simp [Program.cycle, phrase?_past past]
  · intro other
    have pastShort : short.size ≤ (state.renumber program.rank).pc :=
      Nat.le_of_eq (strips.rank_past past).symm
    simp only [Program.cycle, phrase?_past pastShort]
    rfl

theorem Strips.answers_kept (strips : Strips short program) (watched : program.Watched state)
    {item : Entry} (here : program.entries[state.pc]? = some item)
    (kept : item.linked ≠ .skipped) (cycles : Nat) :
    Answers short program (cycles + 1) state := by
  have present : program.phrase? state.pc = some item.phrase := by simp [phrase?, here]
  have presentShort : short.phrase? (state.renumber program.rank).pc = some item.phrase := by
    simp [phrase?, State.renumber, (strips.kept here kept).1]
  have step := strips.step watched.rooted here kept
  rcases move_or_failure (lt_size_of_entry here) with ⟨next, move⟩ | ⟨fault, left, failure⟩
  · have went := step_of_move_kept move here kept
    have onward := watched.move move
    have traced : (next.renumber program.rank).trace = true := onward.traced
    rw [went] at step
    refine ⟨.traced item.phrase.text, next, ?_, by simp, fun _ _ => onward, ?_⟩
    · simp [Program.cycle, present, went, onward.traced]
    · intro other
      simp [Program.cycle, presentShort, step, Step.renumber, traced]
  · have failed := step_of_failure failure
    rw [failed] at step
    refine ⟨.failed fault, { left with done := true }, ?_, by simp, by simp, ?_⟩
    · simp [Program.cycle, present, failed]
    · intro other
      simp only [Program.cycle, presentShort, step, Step.renumber]
      rfl

/-- A call uses up its cycles at skipped phrases, or it has an answer. -/
theorem Strips.cycle (strips : Strips short program) (watched : program.Watched state)
    (cycles : Nat) :
    (∃ after, program.cycle cycles state = (.running, after) ∧ program.Watched after ∧
        after.renumber program.rank = state.renumber program.rank ∧
        after.pc = state.pc + cycles ∧ (0 < cycles → state.pc < program.size)) ∨
      Answers short program cycles state := by
  induction cycles generalizing state with
  | zero =>
      refine .inl ⟨state, rfl, watched, rfl, rfl, ?_⟩
      intro positive
      exact absurd positive (Nat.lt_irrefl 0)
  | succ cycles induction =>
      by_cases inside : state.pc < program.size
      · rcases strips.entry_cases inside with ⟨phrase, here⟩ | ⟨item, here, kept, _⟩
        · have goOn : program.cycle (cycles + 1) state =
              program.cycle cycles { state with pc := state.pc + 1 } := by
            simp [Program.cycle, phrase?, Program.step, here]
          rcases induction (watched.move (.skip here)) with
            ⟨after, running, onward, same, pc, -⟩ | answers
          · rw [goOn]
            refine .inl ⟨after, running, onward, same.trans (strips.skip here), ?_, fun _ => inside⟩
            rw [pc]
            simp only
            omega
          · right
            rw [Answers, goOn, ← strips.skip here]
            exact answers
        · exact .inr (strips.answers_kept watched here kept cycles)
      · exact .inr (strips.answers_past (Nat.le_of_not_lt inside) cycles)

section Watching

variable (strips : Strips short program)
include strips

theorem Strips.watch_of_watch (cycles other : Nat) (watched : program.Watched state)
    (calls : Nat) :
    ∃ fewer, short.watch (other + 1) fewer (state.renumber program.rank) =
      program.watch cycles calls state := by
  induction calls generalizing state with
  | zero => exact ⟨0, rfl⟩
  | succ calls induction =>
      simp only [Program.watch, watched.execute]
      rcases strips.cycle watched cycles with
        ⟨after, called, onward, same, -⟩ | ⟨event, after, called, ended, onward, calledShort⟩
      · rw [called, ← same]
        exact induction onward
      · rw [called]
        have first := (watched.execute_renumber program.rank (other + 1)).trans (calledShort other)
        cases event with
        | running => exact absurd rfl ended
        | traced text =>
            obtain ⟨fewer, rest⟩ := induction (onward text rfl)
            exact ⟨fewer + 1, by simp only [Program.watch, first, rest]; rfl⟩
        | stopped => exact ⟨1, by simp only [Program.watch, first]; rfl⟩
        | failed fault => exact ⟨1, by simp only [Program.watch, first]; rfl⟩

/-- Calls that come only to skipped phrases show nothing, and there are not many of them. -/
theorem Strips.watch_past_skipped (cycles : Nat) (watched : program.Watched state) :
    ∃ next, program.Watched next ∧
      next.renumber program.rank = state.renumber program.rank ∧
      (∃ idle, ∀ calls, program.watch (cycles + 1) (idle + calls) state =
        program.watch (cycles + 1) calls next) ∧
      Answers short program (cycles + 1) next := by
  -- Each of these calls brings the run nearer to the end of the program.
  induction distance : program.size - state.pc using Nat.strongRecOn generalizing state with
  | ind gap induction =>
      rcases strips.cycle watched (cycles + 1) with
        ⟨after, called, onward, same, pc, inside⟩ | answers
      · have nearer : program.size - after.pc < gap := by
          have := inside (Nat.succ_pos cycles)
          omega
        obtain ⟨next, last, sameNext, ⟨idle, skips⟩, answers⟩ := induction _ nearer onward rfl
        refine ⟨next, last, sameNext.trans same, ⟨idle + 1, fun calls => ?_⟩, answers⟩
        rw [Nat.add_right_comm, Program.watch, watched.execute, called]
        exact skips calls
      · exact ⟨state, watched, rfl, ⟨0, fun calls => by rw [Nat.zero_add]⟩, answers⟩

theorem Strips.watch_of_watch_short (cycles other : Nat) (watched : program.Watched state)
    (calls : Nat) :
    ∃ more, program.watch (cycles + 1) more state =
      short.watch (other + 1) calls (state.renumber program.rank) := by
  induction calls generalizing state with
  | zero => exact ⟨0, rfl⟩
  | succ calls induction =>
      obtain ⟨next, onward, same, ⟨idle, skips⟩, event, after, called, ended, rest, calledShort⟩ :=
        strips.watch_past_skipped cycles watched
      have first := (onward.execute (cycles + 1)).trans called
      rw [← same]
      simp only [Program.watch, onward.execute_renumber, calledShort]
      cases event with
      | running => exact absurd rfl ended
      | traced text =>
          obtain ⟨more, later⟩ := induction (rest text rfl)
          refine ⟨idle + (more + 1), ?_⟩
          rw [skips]
          simp only [Program.watch, first, later]
          rfl
      | stopped =>
          refine ⟨idle + 1, ?_⟩
          rw [skips]
          simp only [Program.watch, first]
          rfl
      | failed fault =>
          refine ⟨idle + 1, ?_⟩
          rw [skips]
          simp only [Program.watch, first]
          rfl

/-- A traced run shows the same without the skipped phrases. -/
theorem Strips.watch_iff {cycles other : Nat} (budget : 0 < cycles) (budgetShort : 0 < other)
    {view : View} :
    (∃ calls, program.watch cycles calls ((State.start program).setTrace true) = view) ↔
      ∃ calls, short.watch other calls ((State.start short).setTrace true) = view := by
  obtain ⟨cycles, rfl⟩ := Nat.exists_eq_add_one_of_ne_zero (Nat.ne_of_gt budget)
  obtain ⟨other, rfl⟩ := Nat.exists_eq_add_one_of_ne_zero (Nat.ne_of_gt budgetShort)
  have watched : program.Watched ((State.start program).setTrace true) :=
    ⟨rfl, rfl, rfl, allRooted_empty program⟩
  have start : ((State.start program).setTrace true).renumber program.rank =
      (State.start short).setTrace true := by
    rw [← strips.start]
    rfl
  rw [← start]
  constructor
  · rintro ⟨calls, rfl⟩
    exact strips.watch_of_watch _ other watched calls
  · rintro ⟨calls, rfl⟩
    exact strips.watch_of_watch_short cycles other watched calls

end Watching

end Program

end Abacus
