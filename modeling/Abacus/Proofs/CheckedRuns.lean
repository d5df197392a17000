import Abacus.Proofs.Rooted

/-!
Runs that look at every index. Here a variable is read and written only inside its table, the
phrase that a fault names has to be one of the program, and no step may lead past the address
after the last phrase; whatever reaches outside has no answer. Main statement: in every state that
calls can lead to, all calls have an answer, which is that of the interpreter.
-/

namespace Abacus

namespace Program

def failInside (program : Program) (state : State) (kind : Fault.Kind) (detail : Fault.Detail) :
    Option Step := do
  let phrase ← program.phrase? state.pc
  return .failed (phrase.fault kind detail) state

def settleInside (program : Program) (state : State) (slot : Slot) : Option Int → Option Step
  | some value => do
    let vars ← state.vars.store? slot value
    return .ran { state with vars, pc := state.pc + 1 }
  | none => program.failInside state .overflow .none

def enterInside (program : Program) (state : State) (frame : Frame) (address : Nat) :
    Option Step :=
  let frames := state.frames.push frame
  if frames.overfull then do
    let phrase ← program.phrase? state.pc
    return .failed (Stack.overflow phrase.place) { state with frames }
  else return .ran { state with frames, pc := address }

def jumpInside (program : Program) (state : State) (targets : List Keyword)
    (goOn : Nat → Option Step) : Option Step :=
  match program.outline.next? state.pc targets with
  | some address => goOn address
  | none => program.failInside state .ifWithoutEndif .none

def obeyInside (program : Program) (state : State) : Op → Option Step
  | .clear slot => program.settleInside state slot (some 0)
  | .incr slot => do program.settleInside state slot (Value.succ? (← state.vars.fetch? slot))
  | .decr slot => do program.settleInside state slot (Value.pred? (← state.vars.fetch? slot))
  | .whileNonzero slot => program.enterInside state (.loop state.pc slot) (state.pc + 1)
  | .endWhile =>
    match state.frames.top? with
    | some (.loop returnTo slot) => do
      if (← state.vars.fetch? slot) = 0 then return state.leave
      else return state.stepTo (returnTo + 1)
    | _ => program.failInside state .endWithoutWhile .none
  | .ifNonzero slot => do
    if (← state.vars.fetch? slot) = 0 then
      program.jumpInside state Keyword.branchEnds fun address =>
        program.enterInside state (.chain false) address
    else program.enterInside state (.chain true) (state.pc + 1)
  | .elifNonzero slot =>
    match state.frames.top? with
    | some (.chain resolved) => do
      if resolved || (← state.vars.fetch? slot) = 0 then
        program.jumpInside state Keyword.branchEnds fun address => return state.stepTo address
      else return state.takeBranch
    | _ => program.failInside state .elseWithoutIf .none
  | .elseBranch =>
    match state.frames.top? with
    | some (.chain resolved) =>
      if resolved then
        program.jumpInside state Keyword.chainEnds fun address => return state.stepTo address
      else return state.takeBranch
    | _ => program.failInside state .elseWithoutIf .none
  | .endIf =>
    match state.frames.top? with
    | some (.chain _) => return state.leave
    | _ => program.failInside state .elseWithoutIf .endifWithoutIf

def stepInside (program : Program) (state : State) : Option Step :=
  match program.linkedAt state.pc with
  | .skipped => return .skipped { state with pc := state.pc + 1 }
  | .broken fault => return .failed fault state
  | .op op => program.obeyInside state op

/-- Runs at most `cycles` phrases. The address is looked at before each of them and at the end. -/
def cycleInside (program : Program) (cycles : Nat) (state : State) : Option (Event × State) :=
  if program.size < state.pc then none
  else
    match cycles with
    | 0 => return (.running, state)
    | cycles + 1 =>
      match program.phrase? state.pc with
      | none => return (.stopped, { state with done := true })
      | some phrase => do
        match ← program.stepInside state with
        | .skipped after => program.cycleInside cycles after
        | .ran after =>
          if after.trace then return (.traced phrase.text, after)
          else program.cycleInside cycles after
        | .failed fault left => return (.failed fault, { left with done := true })

def executeInside (program : Program) (cycles : Nat) (state : State) : Option (Event × State) :=
  if state.done then return (.stopped, state)
  else if state.interrupted then
    return (.failed (program.breakFault state), { state with interrupted := false, done := true })
  else program.cycleInside cycles state

/-- As `run?`. The outer option is for reaching outside, the inner one for the rounds. -/
def runInside (program : Program) :
    (rounds : Nat) → State → Option (Option (Option Fault × State))
  | 0, _ => return none
  | rounds + 1, state => do
    match ← program.executeInside roundCycles state with
    | (.running, after) => program.runInside rounds after
    | (.traced _, after) => program.runInside rounds after
    | (.stopped, after) => return some (none, after)
    | (.failed fault, after) => return some (some fault, after)

structure Inside (program : Program) (state : State) : Prop where
  pc_le : state.pc ≤ program.size
  size_vars : state.vars.size = program.slots.size
  rooted : program.AllRooted state.frames

variable {program : Program} {state after left : State}

theorem size_vars_of_move (move : program.Move state after) :
    after.vars.size = state.vars.size := by
  cases move with
  | clear => exact Variables.size_store _ _ _
  | incr => exact Variables.size_store _ _ _
  | decr => exact Variables.size_store _ _ _
  | _ => rfl

theorem Inside.move (inside : program.Inside state) (move : program.Move state after) :
    program.Inside after :=
  ⟨pc_le_of_move inside.rooted move, (size_vars_of_move move).trans inside.size_vars,
    inside.rooted.move move⟩

theorem invariant_inside (program : Program) : program.Invariant program.Inside where
  move inside move := inside.move move
  failure inside failure := by
    have rooted := inside.rooted.failure failure
    cases failure <;> exact ⟨inside.pc_le, inside.size_vars, rooted⟩
  flags _ _ _ inside := ⟨inside.pc_le, inside.size_vars, inside.rooted⟩

theorem inside_of_reachable (reachable : program.Reachable state) : program.Inside state := by
  apply (invariant_inside program).of_reachable _ _ reachable
  · exact ⟨Nat.zero_le _, Variables.size_ofSlots _, allRooted_empty program⟩
  · intro state inside
    exact ⟨Nat.zero_le _, (Variables.size_clear _).trans inside.size_vars,
      allRooted_empty program⟩

theorem Inside.fetch? (inside : program.Inside state) {slot : Slot}
    (bounded : slot.toNat < program.slots.size) :
    state.vars.fetch? slot = some (state.vars.fetch slot) := by
  rw [← inside.size_vars, ← Variables.fetch?_isSome_iff] at bounded
  obtain ⟨value, found⟩ := Option.isSome_iff_exists.1 bounded
  simp [Variables.fetch, found]

theorem Inside.store? (inside : program.Inside state) {slot : Slot} (value : Int)
    (bounded : slot.toNat < program.slots.size) :
    state.vars.store? slot value = some (state.vars.store slot value) := by
  rw [← inside.size_vars] at bounded
  exact if_pos bounded

section At

variable {phrase : Phrase} {op : Op} (here : program.At state.pc phrase op)
include here

theorem failInside_eq (kind : Fault.Kind) (detail : Fault.Detail) :
    program.failInside state kind detail = some (.failed (phrase.fault kind detail) state) := by
  simp [failInside, phrase?_of_entry here]

theorem settleInside_eq (inside : program.Inside state) {slot : Slot}
    (bounded : slot.toNat < program.slots.size) (value? : Option Int) :
    program.settleInside state slot value? = some (state.settle phrase slot value?) := by
  cases value? with
  | none => exact failInside_eq here _ _
  | some value => simp [settleInside, State.settle, inside.store? value bounded]

theorem enterInside_eq (frame : Frame) (address : Nat) :
    program.enterInside state frame address = some (state.enter phrase frame address) := by
  simp only [enterInside, State.enter, phrase?_of_entry here]
  split <;> rfl

theorem jumpInside_eq (targets : List Keyword) {goOn : Nat → Step}
    {goOnInside : Nat → Option Step} (same : ∀ address, goOnInside address = some (goOn address)) :
    program.jumpInside state targets goOnInside =
      some (program.jump state phrase targets goOn) := by
  simp only [jumpInside, jump]
  cases program.outline.next? state.pc targets with
  | none => exact failInside_eq here _ _
  | some address => exact same address

/-- A statement of the program reaches only variables of the program. -/
theorem obeyInside_eq (linked : program.WellLinked) (inside : program.Inside state) :
    program.obeyInside state op = some (program.obey state phrase op) := by
  have operand : ∀ {slot : Slot}, op.operand? = some slot → slot.toNat < program.slots.size :=
    fun own => linked.operand_lt here own
  cases op with
  | clear slot => exact settleInside_eq here inside (operand rfl) (some 0)
  | incr slot =>
      simp only [obeyInside, inside.fetch? (operand rfl), Option.bind_eq_bind, Option.bind_some]
      exact settleInside_eq here inside (operand rfl) _
  | decr slot =>
      simp only [obeyInside, inside.fetch? (operand rfl), Option.bind_eq_bind, Option.bind_some]
      exact settleInside_eq here inside (operand rfl) _
  | whileNonzero slot => exact enterInside_eq here _ _
  | endWhile =>
      rcases top_cases state.frames with ⟨returnTo, slot, top⟩ | ⟨resolved, top⟩ | top
      · obtain ⟨_, loop⟩ := inside.rooted.top top
        simp only [obeyInside, obey, top, inside.fetch? (linked.operand_lt loop rfl),
          Option.bind_eq_bind, Option.bind_some]
        split <;> rfl
      · simp only [obeyInside, obey, top]
        exact failInside_eq here _ _
      · simp only [obeyInside, obey, top]
        exact failInside_eq here _ _
  | ifNonzero slot =>
      simp only [obeyInside, obey, inside.fetch? (operand rfl), Option.bind_eq_bind,
        Option.bind_some]
      split
      · exact jumpInside_eq here _ fun address => enterInside_eq here _ _
      · exact enterInside_eq here _ _
  | elifNonzero slot =>
      rcases top_cases state.frames with ⟨returnTo, other, top⟩ | ⟨resolved, top⟩ | top
      · simp only [obeyInside, obey, top]
        exact failInside_eq here _ _
      · simp only [obeyInside, obey, top, inside.fetch? (operand rfl), Option.bind_eq_bind,
          Option.bind_some]
        split
        · exact jumpInside_eq here _ fun address => rfl
        · rfl
      · simp only [obeyInside, obey, top]
        exact failInside_eq here _ _
  | elseBranch =>
      rcases top_cases state.frames with ⟨returnTo, other, top⟩ | ⟨resolved, top⟩ | top
      · simp only [obeyInside, obey, top]
        exact failInside_eq here _ _
      · simp only [obeyInside, obey, top]
        split
        · exact jumpInside_eq here _ fun address => rfl
        · rfl
      · simp only [obeyInside, obey, top]
        exact failInside_eq here _ _
  | endIf =>
      rcases top_cases state.frames with ⟨returnTo, other, top⟩ | ⟨resolved, top⟩ | top
      · simp only [obeyInside, obey, top]
        exact failInside_eq here _ _
      · simp only [obeyInside, obey, top]
        rfl
      · simp only [obeyInside, obey, top]
        exact failInside_eq here _ _

end At

section Calls

variable (linked : program.WellLinked)
include linked

theorem stepInside_eq (inside : program.Inside state) :
    program.stepInside state = some (program.step state) := by
  unfold stepInside step linkedAt
  cases here : program.entries[state.pc]? with
  | none => rfl
  | some entry =>
      obtain ⟨phrase, result⟩ := entry
      cases result with
      | skipped => rfl
      | broken fault => rfl
      | op op => exact obeyInside_eq here linked inside

theorem cycleInside_eq (cycles : Nat) (inside : program.Inside state) :
    program.cycleInside cycles state = some (program.cycle cycles state) := by
  induction cycles generalizing state with
  | zero =>
      rw [cycleInside, if_neg (Nat.not_lt.2 inside.pc_le)]
      rfl
  | succ cycles induction =>
      rw [cycleInside, if_neg (Nat.not_lt.2 inside.pc_le), cycle]
      cases present : program.phrase? state.pc with
      | none => rfl
      | some phrase =>
          have here : state.pc < program.size := by
            obtain ⟨_, here, _⟩ := Option.map_eq_some_iff.1 present
            exact lt_size_of_entry here
          simp only [stepInside_eq linked inside, Option.bind_eq_bind, Option.bind_some]
          rcases move_or_failure here with ⟨next, move⟩ | ⟨fault, left, failure⟩
          · have onward := induction (inside.move move)
            rcases step_of_move move with went | went
            · rw [went]
              dsimp only
              split
              · rfl
              · exact onward
            · rw [went]
              exact onward
          · rw [step_of_failure failure]
            rfl

theorem executeInside_eq (cycles : Nat) (inside : program.Inside state) :
    program.executeInside cycles state = some (program.execute cycles state) := by
  unfold executeInside execute
  split
  · rfl
  · split
    · rfl
    · exact cycleInside_eq linked cycles inside

theorem runInside_eq (rounds : Nat) (inside : program.Inside state) :
    program.runInside rounds state = some (program.run? rounds state) := by
  induction rounds generalizing state with
  | zero => rfl
  | succ rounds induction =>
      have kept := ((invariant_inside program).execute roundCycles inside).1
      simp only [runInside, run?, executeInside_eq linked roundCycles inside, Option.bind_eq_bind,
        Option.bind_some]
      cases called : program.execute roundCycles state with
      | mk event next =>
          rw [called] at kept
          cases event with
          | running => exact induction kept
          | traced text => exact induction kept
          | stopped => rfl
          | failed fault => rfl

end Calls

end Program

end Abacus
