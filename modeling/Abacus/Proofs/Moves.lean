import Abacus.Interpreter.Execute
import Abacus.Proofs.Steps

/-!
What one step of a run can do. A move is a step that goes on, a failure one that does not; each
lists its cases with the state they start from. Main statement: a whole run gives its variables
exactly when its moves lead past the last phrase, fails exactly when they lead to a failure,
and has no result exactly when there is no end of them.
-/

namespace Abacus

namespace Program

theorem lt_size_of_entry {program : Program} {address : Nat} {entry : Entry}
    (here : program.entries[address]? = some entry) : address < program.size :=
  (Array.getElem?_eq_some_iff.1 here).1

theorem phrase?_of_entry {program : Program} {address : Nat} {phrase : Phrase} {linked : Linked}
    (here : program.entries[address]? = some ⟨phrase, linked⟩) :
    program.phrase? address = some phrase := by
  simp [phrase?, here]

def At (program : Program) (address : Nat) (phrase : Phrase) (op : Op) : Prop :=
  program.entries[address]? = some ⟨phrase, .op op⟩

/-- The steps that go on. -/
inductive Move (program : Program) (state : State) : State → Prop
  | skip {phrase : Phrase} (here : program.entries[state.pc]? = some ⟨phrase, .skipped⟩) :
      Move program state { state with pc := state.pc + 1 }
  | clear {phrase : Phrase} {slot : Slot} (here : program.At state.pc phrase (.clear slot)) :
      Move program state { state with vars := state.vars.store slot 0, pc := state.pc + 1 }
  | incr {phrase : Phrase} {slot : Slot} {value : Int}
      (here : program.At state.pc phrase (.incr slot))
      (fits : Value.succ? (state.vars.fetch slot) = some value) :
      Move program state { state with vars := state.vars.store slot value, pc := state.pc + 1 }
  | decr {phrase : Phrase} {slot : Slot} {value : Int}
      (here : program.At state.pc phrase (.decr slot))
      (fits : Value.pred? (state.vars.fetch slot) = some value) :
      Move program state { state with vars := state.vars.store slot value, pc := state.pc + 1 }
  | openLoop {phrase : Phrase} {slot : Slot}
      (here : program.At state.pc phrase (.whileNonzero slot))
      (room : (state.frames.push (.loop state.pc slot)).overfull = false) :
      Move program state
        { state with frames := state.frames.push (.loop state.pc slot), pc := state.pc + 1 }
  | leaveLoop {phrase : Phrase} {returnTo : Nat} {slot : Slot}
      (here : program.At state.pc phrase .endWhile)
      (top : state.frames.top? = some (.loop returnTo slot))
      (zero : state.vars.fetch slot = 0) :
      Move program state { state with frames := state.frames.pop, pc := state.pc + 1 }
  | repeatLoop {phrase : Phrase} {returnTo : Nat} {slot : Slot}
      (here : program.At state.pc phrase .endWhile)
      (top : state.frames.top? = some (.loop returnTo slot))
      (nonzero : state.vars.fetch slot ≠ 0) :
      Move program state { state with pc := returnTo + 1 }
  | takeFirst {phrase : Phrase} {slot : Slot}
      (here : program.At state.pc phrase (.ifNonzero slot))
      (nonzero : state.vars.fetch slot ≠ 0)
      (room : (state.frames.push (.chain true)).overfull = false) :
      Move program state
        { state with frames := state.frames.push (.chain true), pc := state.pc + 1 }
  | passFirst {phrase : Phrase} {slot : Slot} {address : Nat}
      (here : program.At state.pc phrase (.ifNonzero slot))
      (zero : state.vars.fetch slot = 0)
      (found : program.outline.next? state.pc Keyword.branchEnds = some address)
      (room : (state.frames.push (.chain false)).overfull = false) :
      Move program state { state with frames := state.frames.push (.chain false), pc := address }
  | takeElif {phrase : Phrase} {slot : Slot}
      (here : program.At state.pc phrase (.elifNonzero slot))
      (top : state.frames.top? = some (.chain false))
      (nonzero : state.vars.fetch slot ≠ 0) :
      Move program state
        { state with frames := state.frames.replaceTop (.chain true), pc := state.pc + 1 }
  | passElif {phrase : Phrase} {slot : Slot} {resolved : Bool} {address : Nat}
      (here : program.At state.pc phrase (.elifNonzero slot))
      (top : state.frames.top? = some (.chain resolved))
      (passed : resolved = true ∨ state.vars.fetch slot = 0)
      (found : program.outline.next? state.pc Keyword.branchEnds = some address) :
      Move program state { state with pc := address }
  | takeElse {phrase : Phrase} (here : program.At state.pc phrase .elseBranch)
      (top : state.frames.top? = some (.chain false)) :
      Move program state
        { state with frames := state.frames.replaceTop (.chain true), pc := state.pc + 1 }
  | passElse {phrase : Phrase} {address : Nat} (here : program.At state.pc phrase .elseBranch)
      (top : state.frames.top? = some (.chain true))
      (found : program.outline.next? state.pc Keyword.chainEnds = some address) :
      Move program state { state with pc := address }
  | closeChain {phrase : Phrase} {resolved : Bool} (here : program.At state.pc phrase .endIf)
      (top : state.frames.top? = some (.chain resolved)) :
      Move program state { state with frames := state.frames.pop, pc := state.pc + 1 }

/-- The steps that do not go on, with the fault and the state they leave. -/
inductive Failure (program : Program) (state : State) : Fault → State → Prop
  | broken {phrase : Phrase} {fault : Fault}
      (here : program.entries[state.pc]? = some ⟨phrase, .broken fault⟩) :
      Failure program state fault state
  | incr {phrase : Phrase} {slot : Slot} (here : program.At state.pc phrase (.incr slot))
      (overflows : Value.succ? (state.vars.fetch slot) = none) :
      Failure program state (phrase.fault .overflow .none) state
  | decr {phrase : Phrase} {slot : Slot} (here : program.At state.pc phrase (.decr slot))
      (overflows : Value.pred? (state.vars.fetch slot) = none) :
      Failure program state (phrase.fault .overflow .none) state
  | loopTooDeep {phrase : Phrase} {slot : Slot}
      (here : program.At state.pc phrase (.whileNonzero slot))
      (full : (state.frames.push (.loop state.pc slot)).overfull = true) :
      Failure program state (Stack.overflow phrase.place)
        { state with frames := state.frames.push (.loop state.pc slot) }
  | takeTooDeep {phrase : Phrase} {slot : Slot}
      (here : program.At state.pc phrase (.ifNonzero slot))
      (nonzero : state.vars.fetch slot ≠ 0)
      (full : (state.frames.push (.chain true)).overfull = true) :
      Failure program state (Stack.overflow phrase.place)
        { state with frames := state.frames.push (.chain true) }
  | passTooDeep {phrase : Phrase} {slot : Slot} {address : Nat}
      (here : program.At state.pc phrase (.ifNonzero slot))
      (zero : state.vars.fetch slot = 0)
      (found : program.outline.next? state.pc Keyword.branchEnds = some address)
      (full : (state.frames.push (.chain false)).overfull = true) :
      Failure program state (Stack.overflow phrase.place)
        { state with frames := state.frames.push (.chain false) }
  | strayEnd {phrase : Phrase} (here : program.At state.pc phrase .endWhile)
      (top : ∀ returnTo slot, state.frames.top? ≠ some (.loop returnTo slot)) :
      Failure program state (phrase.fault .endWithoutWhile .none) state
  | strayElif {phrase : Phrase} {slot : Slot}
      (here : program.At state.pc phrase (.elifNonzero slot))
      (top : ∀ resolved, state.frames.top? ≠ some (.chain resolved)) :
      Failure program state (phrase.fault .elseWithoutIf .none) state
  | strayElse {phrase : Phrase} (here : program.At state.pc phrase .elseBranch)
      (top : ∀ resolved, state.frames.top? ≠ some (.chain resolved)) :
      Failure program state (phrase.fault .elseWithoutIf .none) state
  | strayEndIf {phrase : Phrase} (here : program.At state.pc phrase .endIf)
      (top : ∀ resolved, state.frames.top? ≠ some (.chain resolved)) :
      Failure program state (phrase.fault .elseWithoutIf .endifWithoutIf) state
  | unclosedIf {phrase : Phrase} {slot : Slot}
      (here : program.At state.pc phrase (.ifNonzero slot))
      (zero : state.vars.fetch slot = 0)
      (lost : program.outline.next? state.pc Keyword.branchEnds = none) :
      Failure program state (phrase.fault .ifWithoutEndif .none) state
  | unclosedElif {phrase : Phrase} {slot : Slot} {resolved : Bool}
      (here : program.At state.pc phrase (.elifNonzero slot))
      (top : state.frames.top? = some (.chain resolved))
      (passed : resolved = true ∨ state.vars.fetch slot = 0)
      (lost : program.outline.next? state.pc Keyword.branchEnds = none) :
      Failure program state (phrase.fault .ifWithoutEndif .none) state
  | unclosedElse {phrase : Phrase} (here : program.At state.pc phrase .elseBranch)
      (top : state.frames.top? = some (.chain true))
      (lost : program.outline.next? state.pc Keyword.chainEnds = none) :
      Failure program state (phrase.fault .ifWithoutEndif .none) state

theorem step_of_at {program : Program} {state : State} {phrase : Phrase} {op : Op}
    (here : program.At state.pc phrase op) :
    program.step state = program.obey state phrase op := by
  simp only [At] at here
  simp [step, here]

theorem step_of_move {program : Program} {state after : State}
    (move : program.Move state after) :
    program.step state = .ran after ∨ program.step state = .skipped after := by
  cases move with
  | skip here => simp [step, here]
  | clear here => simp [step_of_at here, obey, State.settle]
  | incr here fits => simp [step_of_at here, obey, State.settle, fits]
  | decr here fits => simp [step_of_at here, obey, State.settle, fits]
  | openLoop here room => simp [step_of_at here, obey, State.enter, room]
  | leaveLoop here top zero => simp [step_of_at here, obey, State.leave, top, zero]
  | repeatLoop here top nonzero => simp [step_of_at here, obey, State.stepTo, top, nonzero]
  | takeFirst here nonzero room => simp [step_of_at here, obey, State.enter, nonzero, room]
  | passFirst here zero found room =>
      simp [step_of_at here, obey, jump, State.enter, zero, found, room]
  | takeElif here top nonzero =>
      simp [step_of_at here, obey, State.takeBranch, top, nonzero]
  | passElif here top passed found =>
      rcases passed with resolved | zero
      · simp [step_of_at here, obey, jump, State.stepTo, top, resolved, found]
      · simp [step_of_at here, obey, jump, State.stepTo, top, zero, found]
  | takeElse here top => simp [step_of_at here, obey, State.takeBranch, top]
  | passElse here top found => simp [step_of_at here, obey, jump, State.stepTo, top, found]
  | closeChain here top => simp [step_of_at here, obey, State.leave, top]

theorem step_of_failure {program : Program} {state left : State} {fault : Fault}
    (failure : program.Failure state fault left) : program.step state = .failed fault left := by
  cases failure with
  | broken here => simp [step, here]
  | incr here overflows => simp [step_of_at here, obey, State.settle, overflows]
  | decr here overflows => simp [step_of_at here, obey, State.settle, overflows]
  | loopTooDeep here full => simp [step_of_at here, obey, State.enter, full]
  | takeTooDeep here nonzero full => simp [step_of_at here, obey, State.enter, nonzero, full]
  | passTooDeep here zero found full =>
      simp [step_of_at here, obey, jump, State.enter, zero, found, full]
  | strayEnd here top =>
      rw [step_of_at here, obey]
      split
      · rename_i found
        exact absurd found (top _ _)
      · rfl
  | strayElif here top =>
      rw [step_of_at here, obey]
      split
      · rename_i found
        exact absurd found (top _)
      · rfl
  | strayElse here top =>
      rw [step_of_at here, obey]
      split
      · rename_i found
        exact absurd found (top _)
      · rfl
  | strayEndIf here top =>
      rw [step_of_at here, obey]
      split
      · rename_i found
        exact absurd found (top _)
      · rfl
  | unclosedIf here zero lost => simp [step_of_at here, obey, jump, zero, lost]
  | unclosedElif here top passed lost =>
      rcases passed with resolved | zero
      · simp [step_of_at here, obey, jump, top, resolved, lost]
      · simp [step_of_at here, obey, jump, top, zero, lost]
  | unclosedElse here top lost => simp [step_of_at here, obey, jump, top, lost]

theorem top_cases (frames : Stack) :
    (∃ returnTo slot, frames.top? = some (.loop returnTo slot)) ∨
      (∃ resolved, frames.top? = some (.chain resolved)) ∨ frames.top? = none := by
  cases top : frames.top? with
  | none => exact .inr (.inr rfl)
  | some frame =>
      cases frame with
      | loop returnTo slot => exact .inl ⟨returnTo, slot, rfl⟩
      | chain resolved => exact .inr (.inl ⟨resolved, rfl⟩)

/-- Inside the program every step either goes on or fails. -/
theorem move_or_failure {program : Program} {state : State}
    (inside : state.pc < program.size) :
    (∃ after, program.Move state after) ∨
      ∃ fault left, program.Failure state fault left := by
  have present : ∃ entry, program.entries[state.pc]? = some entry :=
    ⟨_, Array.getElem?_eq_getElem inside⟩
  obtain ⟨⟨phrase, linked⟩, here⟩ := present
  cases linked with
  | skipped => exact .inl ⟨_, .skip here⟩
  | broken fault => exact .inr ⟨_, _, .broken here⟩
  | op op =>
      cases op with
      | clear slot => exact .inl ⟨_, .clear here⟩
      | incr slot =>
          cases fits : Value.succ? (state.vars.fetch slot) with
          | some value => exact .inl ⟨_, .incr here fits⟩
          | none => exact .inr ⟨_, _, .incr here fits⟩
      | decr slot =>
          cases fits : Value.pred? (state.vars.fetch slot) with
          | some value => exact .inl ⟨_, .decr here fits⟩
          | none => exact .inr ⟨_, _, .decr here fits⟩
      | whileNonzero slot =>
          cases room : (state.frames.push (.loop state.pc slot)).overfull with
          | false => exact .inl ⟨_, .openLoop here room⟩
          | true => exact .inr ⟨_, _, .loopTooDeep here room⟩
      | endWhile =>
          rcases top_cases state.frames with ⟨returnTo, slot, top⟩ | ⟨resolved, top⟩ | top
          · by_cases zero : state.vars.fetch slot = 0
            · exact .inl ⟨_, .leaveLoop here top zero⟩
            · exact .inl ⟨_, .repeatLoop here top zero⟩
          · exact .inr ⟨_, _, .strayEnd here (by simp [top])⟩
          · exact .inr ⟨_, _, .strayEnd here (by simp [top])⟩
      | ifNonzero slot =>
          by_cases zero : state.vars.fetch slot = 0
          · cases found : program.outline.next? state.pc Keyword.branchEnds with
            | none => exact .inr ⟨_, _, .unclosedIf here zero found⟩
            | some address =>
                cases room : (state.frames.push (.chain false)).overfull with
                | false => exact .inl ⟨_, .passFirst here zero found room⟩
                | true => exact .inr ⟨_, _, .passTooDeep here zero found room⟩
          · cases room : (state.frames.push (.chain true)).overfull with
            | false => exact .inl ⟨_, .takeFirst here zero room⟩
            | true => exact .inr ⟨_, _, .takeTooDeep here zero room⟩
      | elifNonzero slot =>
          rcases top_cases state.frames with ⟨returnTo, other, top⟩ | ⟨resolved, top⟩ | top
          · exact .inr ⟨_, _, .strayElif here (by simp [top])⟩
          · by_cases passed : resolved = true ∨ state.vars.fetch slot = 0
            · cases found : program.outline.next? state.pc Keyword.branchEnds with
              | some address => exact .inl ⟨_, .passElif here top passed found⟩
              | none => exact .inr ⟨_, _, .unclosedElif here top passed found⟩
            · have unresolved : resolved = false := by simp_all
              subst unresolved
              exact .inl ⟨_, .takeElif here top fun zero => passed (.inr zero)⟩
          · exact .inr ⟨_, _, .strayElif here (by simp [top])⟩
      | elseBranch =>
          rcases top_cases state.frames with ⟨returnTo, other, top⟩ | ⟨resolved, top⟩ | top
          · exact .inr ⟨_, _, .strayElse here (by simp [top])⟩
          · cases resolved with
            | false => exact .inl ⟨_, .takeElse here top⟩
            | true =>
                cases found : program.outline.next? state.pc Keyword.chainEnds with
                | some address => exact .inl ⟨_, .passElse here top found⟩
                | none => exact .inr ⟨_, _, .unclosedElse here top found⟩
          · exact .inr ⟨_, _, .strayElse here (by simp [top])⟩
      | endIf =>
          rcases top_cases state.frames with ⟨returnTo, other, top⟩ | ⟨resolved, top⟩ | top
          · exact .inr ⟨_, _, .strayEndIf here (by simp [top])⟩
          · exact .inl ⟨_, .closeChain here top⟩
          · exact .inr ⟨_, _, .strayEndIf here (by simp [top])⟩

theorem move_of_step {program : Program} {state after : State}
    (inside : state.pc < program.size)
    (went : program.step state = .ran after ∨ program.step state = .skipped after) :
    program.Move state after := by
  rcases move_or_failure inside with ⟨next, move⟩ | ⟨fault, left, failure⟩
  · have same : next = after := by
      rcases step_of_move move with step | step <;> simpa [step] using went
    rwa [← same]
  · simp [step_of_failure failure] at went

theorem failure_of_step {program : Program} {state left : State} {fault : Fault}
    (inside : state.pc < program.size) (failed : program.step state = .failed fault left) :
    program.Failure state fault left := by
  rcases move_or_failure inside with ⟨after, move⟩ | ⟨other, last, failure⟩
  · rcases step_of_move move with step | step <;> simp [step] at failed
  · rw [step_of_failure failure] at failed
    cases failed
    exact failure

theorem obey_ne_skipped {program : Program} {after : State} (state : State) (phrase : Phrase)
    (op : Op) : program.obey state phrase op ≠ .skipped after := by
  have settles : ∀ slot value?, state.settle phrase slot value? ≠ .skipped after := by
    intro slot value?
    cases value? <;> simp [State.settle]
  cases op <;>
    grind [obey, jump, State.enter, State.leave, State.stepTo, State.takeBranch]

/-- A statement that goes on is shown in a traced run. -/
theorem step_of_move_kept {program : Program} {state after : State}
    (move : program.Move state after) {item : Entry}
    (here : program.entries[state.pc]? = some item) (kept : item.linked ≠ .skipped) :
    program.step state = .ran after := by
  rcases step_of_move move with went | went
  · exact went
  · obtain ⟨phrase, linked⟩ := item
    cases linked with
    | skipped => exact absurd rfl kept
    | op op => exact absurd ((step_of_at here).symm.trans went) (obey_ne_skipped _ _ _)
    | broken fault => simp [step, here] at went

theorem phrase?_past {program : Program} {address : Nat} (past : program.size ≤ address) :
    program.phrase? address = none := by
  simp only [size] at past
  simp [phrase?, past]

theorem move_deterministic (program : Program) : Deterministic program.Move := by
  intro start left right toLeft toRight
  rcases step_of_move toLeft with stepLeft | stepLeft <;>
    rcases step_of_move toRight with stepRight | stepRight <;>
    rw [stepLeft] at stepRight <;> cases stepRight <;> rfl

theorem pc_lt_of_move {program : Program} {state after : State}
    (move : program.Move state after) : state.pc < program.size := by
  cases move <;> exact lt_size_of_entry ‹_›

theorem pc_lt_of_failure {program : Program} {state left : State} {fault : Fault}
    (failure : program.Failure state fault left) : state.pc < program.size := by
  cases failure <;> exact lt_size_of_entry ‹_›

theorem flags_of_move {program : Program} {state after : State}
    (move : program.Move state after) :
    after.trace = state.trace ∧ after.done = state.done ∧
      after.interrupted = state.interrupted := by
  cases move <;> exact ⟨rfl, rfl, rfl⟩

theorem Move.withFlags {program : Program} {state after : State} (move : program.Move state after)
    (trace done interrupted : Bool) :
    program.Move { state with trace, done, interrupted }
      { after with trace, done, interrupted } := by
  cases move with
  | skip here => exact .skip here
  | clear here => exact .clear here
  | incr here fits => exact .incr here fits
  | decr here fits => exact .decr here fits
  | openLoop here room => exact .openLoop here room
  | leaveLoop here top zero => exact .leaveLoop here top zero
  | repeatLoop here top nonzero => exact .repeatLoop here top nonzero
  | takeFirst here nonzero room => exact .takeFirst here nonzero room
  | passFirst here zero found room => exact .passFirst here zero found room
  | takeElif here top nonzero => exact .takeElif here top nonzero
  | passElif here top passed found => exact .passElif here top passed found
  | takeElse here top => exact .takeElse here top
  | passElse here top found => exact .passElse here top found
  | closeChain here top => exact .closeChain here top

theorem Move.setTrace {program : Program} {state after : State} (move : program.Move state after)
    (trace : Bool) : program.Move (state.setTrace trace) (after.setTrace trace) := by
  obtain ⟨_, done, interrupted⟩ := flags_of_move move
  have same : after.setTrace trace =
      { after with trace, done := state.done, interrupted := state.interrupted } := by
    rw [← done, ← interrupted, State.setTrace]
  rw [same]
  exact move.withFlags trace state.done state.interrupted

theorem Failure.setTrace {program : Program} {state left : State} {fault : Fault}
    (failure : program.Failure state fault left) (trace : Bool) :
    program.Failure (state.setTrace trace) fault (left.setTrace trace) := by
  cases failure with
  | broken here => exact .broken here
  | incr here overflows => exact .incr here overflows
  | decr here overflows => exact .decr here overflows
  | loopTooDeep here full => exact .loopTooDeep here full
  | takeTooDeep here nonzero full => exact .takeTooDeep here nonzero full
  | passTooDeep here zero found full => exact .passTooDeep here zero found full
  | strayEnd here top => exact .strayEnd here top
  | strayElif here top => exact .strayElif here top
  | strayElse here top => exact .strayElse here top
  | strayEndIf here top => exact .strayEndIf here top
  | unclosedIf here zero lost => exact .unclosedIf here zero lost
  | unclosedElif here top passed lost => exact .unclosedElif here top passed lost
  | unclosedElse here top lost => exact .unclosedElse here top lost

theorem final_of_end {program : Program} {state : State} (past : program.size ≤ state.pc) :
    Final program.Move state := by
  intro after move
  exact absurd (pc_lt_of_move move) (Nat.not_lt.2 past)

theorem final_of_failure {program : Program} {state left : State} {fault : Fault}
    (failure : program.Failure state fault left) : Final program.Move state := by
  intro after move
  have failed := step_of_failure failure
  rcases step_of_move move with went | went <;> rw [went] at failed <;> cases failed

end Program

end Abacus
