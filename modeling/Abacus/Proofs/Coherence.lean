import Abacus.Proofs.CodeLayout
import Abacus.Proofs.OpenBlocks
import Abacus.Proofs.Reachability
import Abacus.Proofs.Runs

/-!
The blocks open in a run are the blocks that the compiler had open at the same address. Main
statement: this holds of every state that calls can lead to, whatever was jumped over or repeated
on the way, so a program that compiles fails in a run only by an overflow or an interrupt.
-/

namespace Abacus

/-- A frame without the memory of whether a branch was taken. -/
def Frame.forget : Frame → Frame
  | .loop returnTo slot => .loop returnTo slot
  | .chain _ => .chain false

namespace Bytecode.Layout

variable {layout : Layout} {program : Program}

/-- The run has the blocks open that the compiler has open at the same address. -/
structure Coherent (layout : Layout) (program : Program) (state : State) : Prop where
  inside : state.pc ≤ program.size
  frames : state.frames.frames.map Frame.forget = (layout.framesBefore program state.pc).frames

theorem coherent_start (layout : Layout) (program : Program) :
    layout.Coherent program (.start program) := ⟨Nat.zero_le _, rfl⟩

theorem Coherent.top? {state : State} (coherent : layout.Coherent program state) :
    (layout.framesBefore program state.pc).top? = state.frames.top?.map Frame.forget := by
  rw [Stack.top?, Stack.top?, ← coherent.frames, List.head?_map]

theorem Coherent.overfull {state : State} (coherent : layout.Coherent program state)
    (frame other : Frame) :
    (state.frames.push frame).overfull =
      ((layout.framesBefore program state.pc).push other).overfull := by
  rw [Bool.eq_iff_iff, Stack.overfull_iff, Stack.overfull_iff, Stack.frames_push,
    Stack.frames_push, List.length_cons, List.length_cons, ← coherent.frames, List.length_map]

theorem Coherent.frames_cons {state : State} (coherent : layout.Coherent program state)
    {frame : Frame} (top : state.frames.top? = some frame) :
    state.frames.frames = frame :: state.frames.pop.frames ∧
      (layout.framesBefore program state.pc).frames =
        frame.forget :: state.frames.pop.frames.map Frame.forget := by
  have shape := Stack.frames_of_top? top
  refine ⟨shape, ?_⟩
  rw [← coherent.frames, shape]
  rfl

theorem Coherent.loop_top {state : State} (coherent : layout.Coherent program state)
    {returnTo : Nat} {slot : Slot}
    (own : (layout.framesBefore program state.pc).top? = some (.loop returnTo slot)) :
    state.frames.top? = some (.loop returnTo slot) := by
  have top? := coherent.top?
  rcases Program.top_cases state.frames with ⟨_, _, found⟩ | ⟨_, found⟩ | found
  · rw [found, own] at top?
    rw [found, top?]
    rfl
  · simp [found, own, Frame.forget] at top?
  · simp [found, own] at top?

theorem Coherent.chain_top {state : State} (coherent : layout.Coherent program state)
    {known : Bool} (own : (layout.framesBefore program state.pc).top? = some (.chain known)) :
    ∃ resolved, state.frames.top? = some (.chain resolved) := by
  have top? := coherent.top?
  rcases Program.top_cases state.frames with ⟨_, _, found⟩ | ⟨resolved, found⟩ | found
  · simp [found, own, Frame.forget] at top?
  · exact ⟨resolved, found⟩
  · simp [found, own] at top?

theorem coherent_next {state : State} (inside : state.pc < program.size) {frames : Stack}
    (next : frames.frames.map Frame.forget =
      (layout.framesBefore program (state.pc + 1)).frames) (vars : Variables) :
    layout.Coherent program { state with vars, frames, pc := state.pc + 1 } := ⟨inside, next⟩

theorem Compiles.coherent_jump (compiles : layout.Compiles program)
    (linked : program.WellLinked) {state : State} {targets : List Keyword} {address : Nat}
    {frames : Stack} (inside : state.pc < program.size)
    (found : program.outline.next? state.pc targets = some address)
    (next : frames.frames.map Frame.forget =
      (layout.framesBefore program (state.pc + 1)).frames) :
    layout.Coherent program { state with frames, pc := address } := by
  obtain ⟨_, bounded, same, _⟩ := compiles.frames_of_next? linked inside found
  exact ⟨Nat.le_of_lt bounded, by rw [same]; exact next⟩

theorem Compiles.coherent_move (compiles : layout.Compiles program)
    (linked : program.WellLinked) {state after : State}
    (coherent : layout.Coherent program state) (move : program.Move state after) :
    layout.Coherent program after := by
  have inside := Program.pc_lt_of_move move
  cases move with
  | skip here =>
      refine ⟨inside, ?_⟩
      rw [(compiles.skipped here).1]
      exact coherent.frames
  | clear here =>
      obtain ⟨_, _, lowers, next, _⟩ := compiles.lowers here
      cases lowers
      exact coherent_next inside (by rw [next, coherent.frames]) _
  | incr here =>
      obtain ⟨_, _, lowers, next, _⟩ := compiles.lowers here
      cases lowers
      exact coherent_next inside (by rw [next, coherent.frames]) _
  | decr here =>
      obtain ⟨_, _, lowers, next, _⟩ := compiles.lowers here
      cases lowers
      exact coherent_next inside (by rw [next, coherent.frames]) _
  | openLoop here =>
      obtain ⟨_, _, lowers, next, _⟩ := compiles.lowers here
      cases lowers
      refine coherent_next inside ?_ _
      rw [next, Stack.frames_push, Stack.frames_push, List.map_cons, coherent.frames]
      rfl
  | leaveLoop here top =>
      obtain ⟨_, _, lowers, next, _⟩ := compiles.lowers here
      cases lowers
      refine coherent_next inside ?_ _
      rw [next, Stack.frames_pop, Stack.frames_pop, ← coherent.frames, List.map_tail]
  | @repeatLoop _ returnTo slot here top =>
      -- The loop was opened by its `while`, so the blocks after that `while` are those here.
      obtain ⟨_, shape⟩ := coherent.frames_cons top
      obtain ⟨before, ⟨phrase, opener⟩, below⟩ :=
        compiles.loop_opened coherent.inside [] shape
      obtain ⟨_, _, lowers, next, _⟩ := compiles.lowers opener
      cases lowers
      refine ⟨Nat.le_trans before coherent.inside, ?_⟩
      rw [next, Stack.frames_push, below, coherent.frames]
      exact shape
  | takeFirst here =>
      obtain ⟨_, _, lowers, next, _⟩ := compiles.lowers here
      cases lowers
      refine coherent_next inside ?_ _
      rw [next, Stack.frames_push, Stack.frames_push, List.map_cons, coherent.frames]
      rfl
  | passFirst here _ found =>
      obtain ⟨_, _, lowers, next, _⟩ := compiles.lowers here
      cases lowers
      apply compiles.coherent_jump linked inside found
      rw [next, Stack.frames_push, Stack.frames_push, List.map_cons, coherent.frames]
      rfl
  | takeElif here top =>
      obtain ⟨_, _, lowers, next, _⟩ := compiles.lowers here
      cases lowers
      refine coherent_next inside ?_ _
      rw [next, Stack.frames_replaceTop top, (coherent.frames_cons top).2]
      rfl
  | passElif here top _ found =>
      obtain ⟨_, _, lowers, next, _⟩ := compiles.lowers here
      cases lowers
      exact compiles.coherent_jump linked inside found (by rw [next, coherent.frames])
  | takeElse here top =>
      obtain ⟨_, _, lowers, next, _⟩ := compiles.lowers here
      cases lowers
      refine coherent_next inside ?_ _
      rw [next, Stack.frames_replaceTop top, (coherent.frames_cons top).2]
      rfl
  | passElse here top found =>
      obtain ⟨_, _, lowers, next, _⟩ := compiles.lowers here
      cases lowers
      exact compiles.coherent_jump linked inside found (by rw [next, coherent.frames])
  | closeChain here =>
      obtain ⟨_, _, lowers, next, _⟩ := compiles.lowers here
      cases lowers
      refine coherent_next inside ?_ _
      rw [next, Stack.frames_pop, Stack.frames_pop, ← coherent.frames, List.map_tail]

/-- In a run of a program that compiles only an overflow fails, and it changes nothing. -/
theorem Compiles.failure_overflow (compiles : layout.Compiles program) {state left : State}
    {fault : Fault} (coherent : layout.Coherent program state)
    (failure : program.Failure state fault left) : fault.kind = .overflow ∧ left = state := by
  cases failure with
  | broken here => exact absurd here compiles.unbroken
  | incr => exact ⟨rfl, rfl⟩
  | decr => exact ⟨rfl, rfl⟩
  | loopTooDeep here full =>
      obtain ⟨_, _, lowers, _⟩ := compiles.lowers here
      cases lowers with
      | openLoop room =>
          rw [coherent.overfull, room] at full
          cases full
  | takeTooDeep here _ full =>
      obtain ⟨_, _, lowers, _⟩ := compiles.lowers here
      cases lowers with
      | openChain room =>
          rw [coherent.overfull, room] at full
          cases full
  | passTooDeep here _ _ full =>
      obtain ⟨_, _, lowers, _⟩ := compiles.lowers here
      cases lowers with
      | openChain room =>
          rw [coherent.overfull, room] at full
          cases full
  | strayEnd here top =>
      obtain ⟨_, _, lowers, _⟩ := compiles.lowers here
      cases lowers with
      | closeLoop own => exact absurd (coherent.loop_top own) (top _ _)
  | strayElif here top =>
      obtain ⟨_, _, lowers, _⟩ := compiles.lowers here
      cases lowers with
      | elifBranch own =>
          obtain ⟨_, found⟩ := coherent.chain_top own
          exact absurd found (top _)
  | strayElse here top =>
      obtain ⟨_, _, lowers, _⟩ := compiles.lowers here
      cases lowers with
      | elseBranch own =>
          obtain ⟨_, found⟩ := coherent.chain_top own
          exact absurd found (top _)
  | strayEndIf here top =>
      obtain ⟨_, _, lowers, _⟩ := compiles.lowers here
      cases lowers with
      | closeChain own =>
          obtain ⟨_, found⟩ := coherent.chain_top own
          exact absurd found (top _)
  | unclosedIf here _ lost =>
      obtain ⟨_, _, lowers, _⟩ := compiles.lowers here
      cases lowers with
      | openChain _ _ found => simp [lost] at found
  | unclosedElif here _ _ lost =>
      obtain ⟨_, _, lowers, _⟩ := compiles.lowers here
      cases lowers with
      | elifBranch _ _ _ found => simp [lost] at found
  | unclosedElse here _ lost =>
      obtain ⟨_, _, lowers, _⟩ := compiles.lowers here
      cases lowers with
      | elseBranch _ _ found => simp [lost] at found

theorem Compiles.invariant_coherent (compiles : layout.Compiles program)
    (linked : program.WellLinked) : program.Invariant (layout.Coherent program) where
  move coherent move := compiles.coherent_move linked coherent move
  failure coherent failure := by
    obtain ⟨_, rfl⟩ := compiles.failure_overflow coherent failure
    exact coherent
  flags _ _ _ coherent := ⟨coherent.inside, coherent.frames⟩

theorem Compiles.coherent_of_reachable (compiles : layout.Compiles program)
    (linked : program.WellLinked) {state : State} (reachable : program.Reachable state) :
    layout.Coherent program state :=
  (compiles.invariant_coherent linked).of_reachable (coherent_start layout program)
    (fun _ => ⟨Nat.zero_le _, rfl⟩) reachable

end Bytecode.Layout

namespace Program

open Bytecode

/-- In every state that calls can lead to, the blocks of the run are those of the compiler, and
no call fails but by an overflow or an interrupt. -/
theorem open_blocks_of_reachable {phrases : Array Phrase} {container : Container} {state : State}
    (compiled : (ofPhrases phrases).compile = .ok container)
    (reachable : (ofPhrases phrases).Reachable state) :
    (∃ layout, Layout.ofProgram (ofPhrases phrases) = .ok layout ∧
      state.pc ≤ (ofPhrases phrases).size ∧
      state.frames.frames.map Frame.forget =
        (layout.framesBefore (ofPhrases phrases) state.pc).frames) ∧
      (∀ cycles fault, ((ofPhrases phrases).execute cycles state).1 = .failed fault →
        fault.kind = .overflow ∨ fault.kind = .interrupted) ∧
      (∀ rounds fault after,
        (ofPhrases phrases).run? rounds state = some (some fault, after) →
        fault.kind = .overflow ∨ fault.kind = .interrupted) := by
  have linked := wellLinked_ofPhrases phrases
  obtain ⟨layout, compiles, _⟩ := compiles_of_compile linked compiled
  have invariant := compiles.invariant_coherent linked
  have coherent := compiles.coherent_of_reachable linked reachable
  have only : ∀ fault : Fault,
      (fault.kind = .interrupted ∨ ∃ last left,
        layout.Coherent (ofPhrases phrases) last ∧
          (ofPhrases phrases).Failure last fault left) →
      fault.kind = .overflow ∨ fault.kind = .interrupted := by
    rintro fault (interrupted | ⟨_, _, before, failure⟩)
    · exact .inr interrupted
    · exact .inl (compiles.failure_overflow before failure).1
  refine ⟨⟨layout, compiles.laid, coherent.inside, coherent.frames⟩, ?_, ?_⟩
  · intro cycles fault failed
    exact only fault ((invariant.execute cycles coherent).2 fault failed)
  · intro rounds fault after ended
    exact only fault ((invariant.run coherent ended).2 fault rfl)

theorem compile_countdown : ∃ container, (ofPhrases countdown).compile = .ok container := by
  have accepted : (ofPhrases countdown).compile.isOk = true := by decide +kernel
  cases compiled : (ofPhrases countdown).compile with
  | ok container => exact ⟨container, rfl⟩
  | error fault =>
      rw [compiled] at accepted
      cases accepted

/-- After four phrases the run is in the second branch, past the jump over the first one. -/
theorem open_blocks_inside_countdown :
    ∃ container state, (ofPhrases countdown).compile = .ok container ∧
      (ofPhrases countdown).Reachable state ∧ state.pc = 5 ∧
      state.frames.frames = [.chain true, .loop 1 0] ∧
      (∃ layout, Layout.ofProgram (ofPhrases countdown) = .ok layout ∧
        state.pc ≤ (ofPhrases countdown).size ∧
        state.frames.frames.map Frame.forget =
          (layout.framesBefore (ofPhrases countdown) state.pc).frames) ∧
      (∀ cycles fault, ((ofPhrases countdown).execute cycles state).1 = .failed fault →
        fault.kind = .overflow ∨ fault.kind = .interrupted) ∧
      (∀ rounds fault after,
        (ofPhrases countdown).run? rounds state = some (some fault, after) →
        fault.kind = .overflow ∨ fault.kind = .interrupted) := by
  obtain ⟨container, compiled⟩ := compile_countdown
  have reachable : (ofPhrases countdown).Reachable
      ((ofPhrases countdown).execute 4 (.start (ofPhrases countdown))).2 := .execute 4 .start
  exact ⟨container, _, compiled, reachable, by decide +kernel, by decide +kernel,
    open_blocks_of_reachable compiled reachable⟩

end Program

end Abacus
