import Abacus.Proofs.Moves

/-!
Whole runs as rows of moves. A run ends when its moves lead past the last phrase or to a
failure; its length in cycles and the number of rounds play no part in what it gives.
-/

namespace Abacus

structure State.Fresh (state : State) : Prop where
  untraced : state.trace = false
  open_ : state.done = false
  undisturbed : state.interrupted = false

theorem State.fresh_start (program : Program) : (State.start program).Fresh := ⟨rfl, rfl, rfl⟩

namespace Program

/-- The moves from `state` lead past the last phrase, to `after`. -/
def Halts (program : Program) (state after : State) : Prop :=
  (∃ count, Steps program.Move count state after) ∧ program.size ≤ after.pc

def Fails (program : Program) (state : State) (fault : Fault) (left : State) : Prop :=
  ∃ last, (∃ count, Steps program.Move count state last) ∧ program.Failure last fault left

def Endless (program : Program) (state : State) : Prop :=
  ∀ count, ∃ after, Steps program.Move count state after

theorem fresh_of_move {program : Program} {state after : State} (fresh : state.Fresh)
    (move : program.Move state after) : after.Fresh := by
  obtain ⟨trace, done, interrupted⟩ := flags_of_move move
  exact ⟨trace.trans fresh.untraced, done.trans fresh.open_, interrupted.trans fresh.undisturbed⟩

theorem fresh_of_steps {program : Program} {count : Nat} {state after : State}
    (fresh : state.Fresh) (steps : Steps program.Move count state after) : after.Fresh := by
  induction steps with
  | none => exact fresh
  | cons move _ induction => exact induction (fresh_of_move fresh move)

theorem Halts.unique {program : Program} {state left right : State}
    (toLeft : program.Halts state left) (toRight : program.Halts state right) : left = right := by
  obtain ⟨⟨_, leftSteps⟩, leftPast⟩ := toLeft
  obtain ⟨⟨_, rightSteps⟩, rightPast⟩ := toRight
  exact Steps.final_unique program.move_deterministic leftSteps (final_of_end leftPast)
    rightSteps (final_of_end rightPast)

theorem Halts.not_fails {program : Program} {state after left : State} {fault : Fault}
    (halts : program.Halts state after) : ¬ program.Fails state fault left := by
  rintro ⟨last, ⟨_, steps⟩, failure⟩
  obtain ⟨⟨_, halted⟩, past⟩ := halts
  have same := Steps.final_unique program.move_deterministic halted (final_of_end past)
    steps (final_of_failure failure)
  subst same
  exact absurd (pc_lt_of_failure failure) (Nat.not_lt.2 past)

theorem Halts.not_endless {program : Program} {state after : State}
    (halts : program.Halts state after) : ¬ program.Endless state := by
  intro endless
  obtain ⟨⟨count, halted⟩, past⟩ := halts
  obtain ⟨_, longer⟩ := endless (count + 1)
  have bounded := Steps.le_of_final program.move_deterministic halted (final_of_end past) longer
  omega

theorem Fails.unique {program : Program} {state left right : State} {fault other : Fault}
    (toLeft : program.Fails state fault left) (toRight : program.Fails state other right) :
    fault = other ∧ left = right := by
  obtain ⟨_, ⟨_, leftSteps⟩, leftFailure⟩ := toLeft
  obtain ⟨_, ⟨_, rightSteps⟩, rightFailure⟩ := toRight
  obtain rfl := Steps.final_unique program.move_deterministic leftSteps
    (final_of_failure leftFailure) rightSteps (final_of_failure rightFailure)
  have same := (step_of_failure leftFailure).symm.trans (step_of_failure rightFailure)
  simpa using same

theorem Fails.not_endless {program : Program} {state left : State} {fault : Fault}
    (fails : program.Fails state fault left) : ¬ program.Endless state := by
  intro endless
  obtain ⟨last, ⟨count, steps⟩, failure⟩ := fails
  obtain ⟨_, longer⟩ := endless (count + 1)
  have bounded :=
    Steps.le_of_final program.move_deterministic steps (final_of_failure failure) longer
  omega

/-- The three answers of a call with a budget, for a run that is not traced. -/
theorem cycle_cases (program : Program) (cycles : Nat) {state : State} (fresh : state.Fresh) :
    (∃ after, Steps program.Move cycles state after ∧
        program.cycle cycles state = (.running, after)) ∨
      (∃ after, program.Halts state after ∧
        program.cycle cycles state = (.stopped, { after with done := true })) ∨
      (∃ fault left, program.Fails state fault left ∧
        program.cycle cycles state = (.failed fault, { left with done := true })) := by
  induction cycles generalizing state with
  | zero => exact .inl ⟨state, .none state, rfl⟩
  | succ cycles induction =>
      by_cases inside : state.pc < program.size
      · have present : program.phrase? state.pc = some program.entries[state.pc].phrase := by
          simp only [size] at inside
          simp [phrase?, inside]
        rcases move_or_failure inside with ⟨next, move⟩ | ⟨fault, left, failure⟩
        · have goOn : program.cycle (cycles + 1) state = program.cycle cycles next := by
            have untraced := (fresh_of_move fresh move).untraced
            rcases step_of_move move with went | went
            · simp [cycle, present, went, untraced]
            · simp [cycle, present, went]
          rw [goOn]
          rcases induction (fresh_of_move fresh move) with ⟨after, steps, running⟩ |
            ⟨after, ⟨⟨count, steps⟩, past⟩, stopped⟩ |
            ⟨fault, left, ⟨last, ⟨count, steps⟩, failure⟩, failed⟩
          · exact .inl ⟨after, .cons move steps, running⟩
          · exact .inr (.inl ⟨after, ⟨⟨count + 1, .cons move steps⟩, past⟩, stopped⟩)
          · exact .inr (.inr ⟨fault, left, ⟨last, ⟨count + 1, .cons move steps⟩, failure⟩, failed⟩)
        · refine .inr (.inr ⟨fault, left, ⟨state, ⟨0, .none state⟩, failure⟩, ?_⟩)
          simp [cycle, present, step_of_failure failure]
      · have absent : program.phrase? state.pc = none := by
          simp only [size] at inside
          simp [phrase?, Nat.le_of_not_lt inside]
        have past : program.size ≤ state.pc := Nat.le_of_not_lt inside
        exact .inr (.inl ⟨state, ⟨⟨0, .none state⟩, past⟩, by simp [cycle, absent]⟩)

theorem run?_cases (program : Program) (rounds : Nat) {state : State} (fresh : state.Fresh) :
    (∃ after, Steps program.Move (rounds * roundCycles) state after ∧
        program.run? rounds state = none) ∨
      (∃ after, program.Halts state after ∧
        program.run? rounds state = some (none, { after with done := true })) ∨
      (∃ fault left, program.Fails state fault left ∧
        program.run? rounds state = some (some fault, { left with done := true })) := by
  induction rounds generalizing state with
  | zero => exact .inl ⟨state, by rw [Nat.zero_mul]; exact .none state, rfl⟩
  | succ rounds induction =>
      have called : program.execute roundCycles state = program.cycle roundCycles state := by
        simp [execute, fresh.open_, fresh.undisturbed]
      rcases cycle_cases program roundCycles fresh with ⟨next, steps, running⟩ |
        ⟨after, halts, stopped⟩ | ⟨fault, left, fails, failed⟩
      · have goOn : program.run? (rounds + 1) state = program.run? rounds next := by
          simp [run?, called, running]
        rw [goOn]
        rcases induction (fresh_of_steps fresh steps) with ⟨after, more, answer⟩ |
          ⟨after, ⟨⟨count, more⟩, past⟩, answer⟩ |
          ⟨fault, left, ⟨last, ⟨count, more⟩, failure⟩, answer⟩
        · refine .inl ⟨after, ?_, answer⟩
          rw [Nat.succ_mul, Nat.add_comm]
          exact steps.append more
        · exact .inr (.inl ⟨after, ⟨⟨_, steps.append more⟩, past⟩, answer⟩)
        · exact .inr (.inr ⟨fault, left, ⟨last, ⟨_, steps.append more⟩, failure⟩, answer⟩)
      · exact .inr (.inl ⟨after, halts, by simp [run?, called, stopped]⟩)
      · exact .inr (.inr ⟨fault, left, fails, by simp [run?, called, failed]⟩)

theorem endless_or_ends (program : Program) {state : State} (fresh : state.Fresh) :
    program.Endless state ∨ (∃ after, program.Halts state after) ∨
      ∃ fault left, program.Fails state fault left := by
  by_cases endless : program.Endless state
  · exact .inl endless
  · right
    obtain ⟨count, blocked⟩ := Classical.not_forall.1 endless
    rcases cycle_cases program count fresh with ⟨after, steps, _⟩ | ⟨after, halts, _⟩ |
      ⟨fault, left, fails, _⟩
    · exact absurd ⟨after, steps⟩ blocked
    · exact .inl ⟨after, halts⟩
    · exact .inr ⟨fault, left, fails⟩

theorem run?_eq_finished_iff {program : Program} {state : State} (fresh : state.Fresh)
    {after : State} :
    (∃ rounds, program.run? rounds state = some (none, after)) ↔
      ∃ last, program.Halts state last ∧ after = { last with done := true } := by
  constructor
  · rintro ⟨rounds, finished⟩
    rcases run?_cases program rounds fresh with ⟨_, _, answer⟩ | ⟨last, halts, answer⟩ |
      ⟨_, _, _, answer⟩
    · simp [answer] at finished
    · rw [answer] at finished
      exact ⟨last, halts, by simpa using finished.symm⟩
    · simp [answer] at finished
  · rintro ⟨last, halts, rfl⟩
    obtain ⟨⟨count, steps⟩, past⟩ := id halts
    refine ⟨count + 1, ?_⟩
    rcases run?_cases program (count + 1) fresh with ⟨_, longer, _⟩ | ⟨other, others, answer⟩ |
      ⟨_, _, fails, _⟩
    · have bounded := Steps.le_of_final program.move_deterministic steps (final_of_end past) longer
      simp only [roundCycles] at bounded
      omega
    · rw [answer, halts.unique others]
    · exact absurd fails halts.not_fails

theorem run?_eq_failed_iff {program : Program} {state : State} (fresh : state.Fresh)
    {fault : Fault} {after : State} :
    (∃ rounds, program.run? rounds state = some (some fault, after)) ↔
      ∃ left, program.Fails state fault left ∧ after = { left with done := true } := by
  constructor
  · rintro ⟨rounds, failed⟩
    rcases run?_cases program rounds fresh with ⟨_, _, answer⟩ | ⟨_, _, answer⟩ |
      ⟨other, left, fails, answer⟩
    · simp [answer] at failed
    · simp [answer] at failed
    · rw [answer] at failed
      simp only [Option.some.injEq, Prod.mk.injEq] at failed
      obtain ⟨rfl, rfl⟩ := failed
      exact ⟨left, fails, rfl⟩
  · rintro ⟨left, fails, rfl⟩
    obtain ⟨last, ⟨count, steps⟩, failure⟩ := id fails
    refine ⟨count + 1, ?_⟩
    rcases run?_cases program (count + 1) fresh with ⟨_, longer, _⟩ | ⟨_, halts, _⟩ |
      ⟨other, otherLeft, others, answer⟩
    · have bounded :=
        Steps.le_of_final program.move_deterministic steps (final_of_failure failure) longer
      simp only [roundCycles] at bounded
      omega
    · exact absurd fails halts.not_fails
    · obtain ⟨rfl, rfl⟩ := fails.unique others
      exact answer

theorem run?_eq_none_iff {program : Program} {state : State} (fresh : state.Fresh) :
    (∀ rounds, program.run? rounds state = none) ↔ program.Endless state := by
  constructor
  · intro unanswered count
    rcases run?_cases program count fresh with ⟨after, steps, _⟩ | ⟨_, _, answer⟩ |
      ⟨_, _, _, answer⟩
    · exact steps.shorten (Nat.le_mul_of_pos_right count (by decide))
    · rw [unanswered] at answer
      cases answer
    · rw [unanswered] at answer
      cases answer
  · intro endless rounds
    rcases run?_cases program rounds fresh with ⟨_, _, answer⟩ | ⟨_, halts, _⟩ |
      ⟨_, _, fails, _⟩
    · exact answer
    · exact absurd endless halts.not_endless
    · exact absurd endless fails.not_endless

def Returns (program : Program) (vars : Variables) : Prop :=
  ∃ rounds after, program.run? rounds (.start program) = some (none, after) ∧ after.vars = vars

def Overflows (program : Program) (vars : Variables) : Prop :=
  ∃ rounds fault after, program.run? rounds (.start program) = some (some fault, after) ∧
    fault.kind = .overflow ∧ after.vars = vars

def FailsWith (program : Program) (fault : Fault) (vars : Variables) : Prop :=
  ∃ rounds after, program.run? rounds (.start program) = some (some fault, after) ∧
    after.vars = vars

def RunsForever (program : Program) : Prop :=
  ∀ rounds, program.run? rounds (.start program) = none

theorem returns_iff {program : Program} {vars : Variables} :
    program.Returns vars ↔ ∃ last, program.Halts (.start program) last ∧ last.vars = vars := by
  have fresh := State.fresh_start program
  constructor
  · rintro ⟨rounds, after, answer, rfl⟩
    obtain ⟨last, halts, rfl⟩ := (run?_eq_finished_iff fresh).1 ⟨rounds, answer⟩
    exact ⟨last, halts, rfl⟩
  · rintro ⟨last, halts, rfl⟩
    obtain ⟨rounds, answer⟩ := (run?_eq_finished_iff fresh).2 ⟨last, halts, rfl⟩
    exact ⟨rounds, _, answer, rfl⟩

theorem overflows_iff {program : Program} {vars : Variables} :
    program.Overflows vars ↔
      ∃ fault left, program.Fails (.start program) fault left ∧ fault.kind = .overflow ∧
        left.vars = vars := by
  have fresh := State.fresh_start program
  constructor
  · rintro ⟨rounds, fault, after, answer, kind, rfl⟩
    obtain ⟨left, fails, rfl⟩ := (run?_eq_failed_iff fresh).1 ⟨rounds, answer⟩
    exact ⟨fault, left, fails, kind, rfl⟩
  · rintro ⟨fault, left, fails, kind, rfl⟩
    obtain ⟨rounds, answer⟩ := (run?_eq_failed_iff fresh).2 ⟨left, fails, rfl⟩
    exact ⟨rounds, fault, _, answer, kind, rfl⟩

theorem failsWith_iff {program : Program} {fault : Fault} {vars : Variables} :
    program.FailsWith fault vars ↔
      ∃ left, program.Fails (.start program) fault left ∧ left.vars = vars := by
  have fresh := State.fresh_start program
  constructor
  · rintro ⟨rounds, after, answer, rfl⟩
    obtain ⟨left, fails, rfl⟩ := (run?_eq_failed_iff fresh).1 ⟨rounds, answer⟩
    exact ⟨left, fails, rfl⟩
  · rintro ⟨left, fails, rfl⟩
    obtain ⟨rounds, answer⟩ := (run?_eq_failed_iff fresh).2 ⟨left, fails, rfl⟩
    exact ⟨rounds, _, answer, rfl⟩

theorem runsForever_iff {program : Program} :
    program.RunsForever ↔ program.Endless (.start program) :=
  run?_eq_none_iff (State.fresh_start program)

def countdown : Array Phrase :=
  #["incr x", "while x", "if y", "incr y", "else", "decr x", "endif", "end"].map (Phrase.mk 1)

theorem returns_countdown : (ofPhrases countdown).Returns ⟨#[⟨"x", 0⟩, ⟨"y", 0⟩]⟩ := by
  have answer : ((ofPhrases countdown).run? 1 (.start (ofPhrases countdown))).map
      (fun ended => (ended.1, ended.2.vars)) = some (none, ⟨#[⟨"x", 0⟩, ⟨"y", 0⟩]⟩) := by
    decide +kernel
  obtain ⟨⟨fault, after⟩, ended, same⟩ := Option.map_eq_some_iff.1 answer
  obtain ⟨rfl, vars⟩ := Prod.mk.inj same
  exact ⟨1, after, ended, vars⟩

end Program

end Abacus
