import Abacus.Proofs.LifeCycle

/-!
Budgets of cycles. A call that uses up its budget can be continued by another one as if there had
been one larger budget, and a call with any other answer gives it for every larger budget. Main
statement: a run comes to the same end however it is cut into calls, as long as none of them has
an empty budget.
-/

namespace Abacus

namespace Program

variable {program : Program} {state after : State} {event : Event}

section Cycle

theorem cycle_add_of_running {first : Nat} (used : program.cycle first state = (.running, after))
    (second : Nat) : program.cycle (first + second) state = program.cycle second after := by
  induction first generalizing state with
  | zero =>
      cases used
      rw [Nat.zero_add]
  | succ first induction =>
      rw [Nat.succ_add]
      simp only [cycle] at used ⊢
      split at used
      · cases used
      · split at used
        · exact induction used
        · split at used
          · cases used
          · rename_i untraced
            rw [if_neg untraced]
            exact induction used
        · cases used

theorem cycle_add_of_answer {first : Nat} (answered : program.cycle first state = (event, after))
    (answer : event ≠ .running) (second : Nat) :
    program.cycle (first + second) state = (event, after) := by
  induction first generalizing state with
  | zero =>
      cases answered
      exact absurd rfl answer
  | succ first induction =>
      rw [Nat.succ_add]
      simp only [cycle] at answered ⊢
      split at answered
      · exact answered
      · split at answered
        · exact induction answered
        · split at answered
          · rename_i traced
            rw [if_pos traced]
            exact answered
          · rename_i untraced
            rw [if_neg untraced]
            exact induction answered
        · exact answered

theorem open_of_cycle {cycles : Nat} (used : program.cycle cycles state = (.running, after)) :
    after.done = state.done ∧ after.interrupted = state.interrupted := by
  induction cycles generalizing state with
  | zero =>
      cases used
      exact ⟨rfl, rfl⟩
  | succ cycles induction =>
      simp only [cycle] at used
      split at used
      · cases used
      · rename_i present
        obtain ⟨_, here, _⟩ := Option.map_eq_some_iff.1 present
        have inside := lt_size_of_entry here
        split at used
        · rename_i next went
          obtain ⟨_, done, interrupted⟩ := flags_of_move (move_of_step inside (.inr went))
          rw [← done, ← interrupted]
          exact induction used
        · rename_i next went
          obtain ⟨_, done, interrupted⟩ := flags_of_move (move_of_step inside (.inl went))
          split at used
          · cases used
          · rw [← done, ← interrupted]
            exact induction used
        · cases used

end Cycle

theorem execute_of_open (running : state.done = false) (undisturbed : state.interrupted = false)
    (cycles : Nat) : program.execute cycles state = program.cycle cycles state := by
  simp [execute, running, undisturbed]

theorem open_cases (state : State) :
    state.done = true ∨ (state.done = false ∧ state.interrupted = true) ∨
      (state.done = false ∧ state.interrupted = false) := by
  cases state.done <;> cases state.interrupted <;> simp

theorem execute_add_of_running {first : Nat}
    (used : program.execute first state = (.running, after)) (second : Nat) :
    program.execute (first + second) state = program.execute second after := by
  rcases open_cases state with finished | ⟨running, pending⟩ | ⟨running, undisturbed⟩
  · rw [execute_of_done finished] at used
    cases used
  · rw [execute_of_interrupted running pending] at used
    cases used
  · rw [execute_of_open running undisturbed] at used ⊢
    obtain ⟨done, interrupted⟩ := open_of_cycle used
    rw [execute_of_open (done.trans running) (interrupted.trans undisturbed)]
    exact cycle_add_of_running used second

theorem execute_add_of_answer {first : Nat}
    (answered : program.execute first state = (event, after)) (answer : event ≠ .running)
    (second : Nat) : program.execute (first + second) state = (event, after) := by
  rcases open_cases state with finished | ⟨running, pending⟩ | ⟨running, undisturbed⟩
  · rw [execute_of_done finished] at answered ⊢
    exact answered
  · rw [execute_of_interrupted running pending] at answered ⊢
    exact answered
  · rw [execute_of_open running undisturbed] at answered ⊢
    exact cycle_add_of_answer answered answer second

/-- What a row of calls came to: the texts that were traced, each with the variables at that call,
and how the run ended, if it did. -/
structure Account where
  shown : List (String × Variables) := []
  ended? : Option (Option Fault × State) := none

def Account.add (event : Event) (after : State) (later : Account) : Account :=
  match event with
  | .running => later
  | .traced text => { later with shown := (text, after.vars) :: later.shown }
  | .stopped => { ended? := some (none, after) }
  | .failed fault => { ended? := some (some fault, after) }

/-- The account of so many calls, each with its own budget. Nothing is called after the end. -/
def account (program : Program) : (calls : Nat) → (budgets : Nat → Nat) → State → Account
  | 0, _, _ => {}
  | calls + 1, budgets, state =>
    let (event, after) := program.execute (budgets 0) state
    .add event after (program.account calls (fun call => budgets (call + 1)) after)

theorem account_succ {budgets : Nat → Nat}
    (called : program.execute (budgets 0) state = (event, after)) (calls : Nat) :
    program.account (calls + 1) budgets state =
      .add event after (program.account calls (fun call => budgets (call + 1)) after) := by
  simp only [account, called]

theorem run?_eq_account (rounds : Nat) (state : State) :
    program.run? rounds state = (program.account rounds (fun _ => roundCycles) state).ended? := by
  induction rounds generalizing state with
  | zero => rfl
  | succ rounds induction =>
      cases called : program.execute roundCycles state with
      | mk event after =>
          rw [account_succ called, run?, called]
          cases event with
          | running => exact induction after
          | traced text => exact induction after
          | stopped => rfl
          | failed fault => rfl

theorem account_of_ended {calls : Nat} {budgets : Nat → Nat} {ended : Option Fault × State}
    (closed : (program.account calls budgets state).ended? = some ended) (more : Nat) :
    program.account (calls + more) budgets state = program.account calls budgets state := by
  induction calls generalizing budgets state with
  | zero => cases closed
  | succ calls induction =>
      cases called : program.execute (budgets 0) state with
      | mk event after =>
          rw [Nat.succ_add, account_succ called, account_succ called]
          rw [account_succ called] at closed
          cases event with
          | running => exact induction closed
          | traced text => simp only [Account.add, induction closed]
          | stopped => rfl
          | failed fault => rfl

/-- A call is a row of calls of one cycle each. -/
theorem account_of_execute {cycles : Nat}
    (called : program.execute (cycles + 1) state = (event, after)) :
    ∃ count, 0 < count ∧ ∀ more,
      program.account (count + more) (fun _ => 1) state =
        .add event after (program.account more (fun _ => 1) after) := by
  have single : ∀ {state next : State} {event : Event} (more : Nat),
      program.execute 1 state = (event, next) →
        program.account (1 + more) (fun _ => 1) state =
          .add event next (program.account more (fun _ => 1) next) := by
    intro state next event more first
    rw [Nat.add_comm]
    exact account_succ first more
  induction cycles generalizing state with
  | zero => exact ⟨1, Nat.one_pos, fun more => single more called⟩
  | succ cycles induction =>
      rw [Nat.add_comm] at called
      cases first : program.execute 1 state with
      | mk answer next =>
          by_cases used : answer = .running
          · subst used
            rw [execute_add_of_running first] at called
            obtain ⟨count, _, rest⟩ := induction called
            refine ⟨1 + count, by omega, fun more => ?_⟩
            rw [Nat.add_assoc, single _ first]
            exact rest more
          · rw [execute_add_of_answer first used] at called
            cases called
            exact ⟨1, Nat.one_pos, fun more => single more first⟩

/-- However a run is cut into calls, it could have been called for one cycle at a time. -/
theorem account_eq_single {budgets : Nat → Nat} (positive : ∀ call, 0 < budgets call)
    (calls : Nat) (state : State) :
    ∃ count, calls ≤ count ∧
      program.account calls budgets state = program.account count (fun _ => 1) state := by
  induction calls generalizing budgets state with
  | zero => exact ⟨0, Nat.le_refl 0, rfl⟩
  | succ calls induction =>
      obtain ⟨cycles, budget⟩ := Nat.exists_eq_add_one_of_ne_zero (Nat.ne_of_gt (positive 0))
      cases called : program.execute (budgets 0) state with
      | mk event after =>
          obtain ⟨rest, enough, same⟩ := induction (fun call => positive (call + 1)) after
          rw [account_succ called, same]
          rw [budget] at called
          obtain ⟨count, some, whole⟩ := account_of_execute called
          exact ⟨count + rest, by omega, (whole rest).symm⟩

theorem ended_iff_single {budgets : Nat → Nat} (positive : ∀ call, 0 < budgets call)
    {ended : Option Fault × State} :
    (∃ calls, (program.account calls budgets state).ended? = some ended) ↔
      ∃ count, (program.account count (fun _ => 1) state).ended? = some ended := by
  constructor
  · rintro ⟨calls, closed⟩
    obtain ⟨count, _, same⟩ := account_eq_single positive calls state
    exact ⟨count, by rw [← same, closed]⟩
  · rintro ⟨count, closed⟩
    obtain ⟨more, enough, same⟩ := account_eq_single positive count state
    obtain ⟨rest, rfl⟩ := Nat.exists_eq_add_of_le enough
    exact ⟨count, by rw [same, account_of_ended closed, closed]⟩

theorem ended_iff_run? {budgets : Nat → Nat} (positive : ∀ call, 0 < budgets call)
    {ended : Option Fault × State} :
    (∃ calls, (program.account calls budgets state).ended? = some ended) ↔
      ∃ rounds, program.run? rounds state = some ended := by
  have rounds : ∀ call : Nat, 0 < (fun _ => roundCycles) call := fun _ => Nat.succ_pos 4999
  simp only [run?_eq_account, ended_iff_single positive, ended_iff_single rounds]

/-- Budgets compose, in every state: after a call that used up its budget the next one goes on as
a larger budget would have, any other answer is that of every larger budget, and positive budgets
lead to the end that a whole run has, or to none if it has none. -/
theorem budgets_compose (program : Program) (state : State) :
    (∀ first second after, program.execute first state = (.running, after) →
        program.execute (first + second) state = program.execute second after) ∧
      (∀ first second event after, program.execute first state = (event, after) →
        event ≠ .running → program.execute (first + second) state = (event, after)) ∧
      ∀ budgets : Nat → Nat, (∀ call, 0 < budgets call) → ∀ outcome after,
        (∃ calls, (program.account calls budgets state).ended? = some (outcome, after)) ↔
          ∃ rounds, program.run? rounds state = some (outcome, after) := by
  refine ⟨?_, ?_, ?_⟩
  · intro first second after used
    exact execute_add_of_running used second
  · intro first second event after answered answer
    exact execute_add_of_answer answered answer second
  · intro budgets positive outcome after
    exact ended_iff_run? positive

theorem budgets_compose_countdown :
    (∃ after, (ofPhrases countdown).execute 3 (.start (ofPhrases countdown)) = (.running, after) ∧
        (ofPhrases countdown).execute (3 + 9) (.start (ofPhrases countdown)) =
          (ofPhrases countdown).execute 9 after) ∧
      (∃ after, (ofPhrases countdown).execute 9 (.start (ofPhrases countdown)) = (.stopped, after) ∧
        (ofPhrases countdown).execute (9 + 3) (.start (ofPhrases countdown)) = (.stopped, after)) ∧
      ∃ calls after, ((ofPhrases countdown).account calls (fun call => call + 1)
          (.start (ofPhrases countdown))).ended? = some (none, after) ∧
        after.vars = ⟨#[⟨"x", 0⟩, ⟨"y", 0⟩]⟩ := by
  obtain ⟨goOn, answer, whole⟩ :=
    budgets_compose (ofPhrases countdown) (.start (ofPhrases countdown))
  have running : ((ofPhrases countdown).execute 3 (.start (ofPhrases countdown))).1 = .running := by
    decide +kernel
  have stopped : ((ofPhrases countdown).execute 9 (.start (ofPhrases countdown))).1 = .stopped := by
    decide +kernel
  obtain ⟨rounds, last, ended, vars⟩ := returns_countdown
  obtain ⟨calls, closed⟩ :=
    (whole (fun call => call + 1) Nat.succ_pos none last).2 ⟨rounds, ended⟩
  refine ⟨⟨_, Prod.ext running rfl, ?_⟩, ⟨_, Prod.ext stopped rfl, ?_⟩, calls, last, closed,
    vars⟩
  · exact goOn 3 9 _ (Prod.ext running rfl)
  · exact answer 9 3 _ _ (Prod.ext stopped rfl) (by decide)

end Program

end Abacus
