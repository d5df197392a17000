import Abacus.Proofs.Linking
import Abacus.Proofs.Lowering
import Abacus.Proofs.Reachability
import Abacus.Proofs.Seeking

/-!
Where loops come from. In a run of any program, well formed or not, and in its compilation every
loop among the open blocks was opened by a `while` of the program and tests the variable of that
statement. No move leads past the address after the last phrase.
-/

namespace Abacus

namespace Program

variable {program : Program} {state after left : State} {frames : Stack}

/-- A loop goes back to its `while`. -/
def Rooted (program : Program) : Frame → Prop
  | .loop returnTo slot => ∃ phrase, program.At returnTo phrase (.whileNonzero slot)
  | .chain _ => True

def AllRooted (program : Program) (frames : Stack) : Prop :=
  ∀ frame ∈ frames.frames, program.Rooted frame

theorem allRooted_empty (program : Program) : program.AllRooted .empty := by
  simp [AllRooted, Stack.empty]

theorem AllRooted.top (rooted : program.AllRooted frames) {frame : Frame}
    (top : frames.top? = some frame) : program.Rooted frame :=
  rooted frame (List.mem_of_mem_head? top)

theorem AllRooted.pop (rooted : program.AllRooted frames) : program.AllRooted frames.pop :=
  fun frame member => rooted frame (List.mem_of_mem_tail member)

theorem AllRooted.push (rooted : program.AllRooted frames) {frame : Frame}
    (own : program.Rooted frame) : program.AllRooted (frames.push frame) := by
  intro other member
  rcases List.mem_cons.1 member with rfl | below
  · exact own
  · exact rooted other below

theorem AllRooted.replaceTop (rooted : program.AllRooted frames) {top frame : Frame}
    (found : frames.top? = some top) (own : program.Rooted frame) :
    program.AllRooted (frames.replaceTop frame) := by
  intro other member
  rw [Stack.frames_replaceTop found] at member
  rcases List.mem_cons.1 member with rfl | below
  · exact own
  · exact rooted.pop other below

theorem AllRooted.move (rooted : program.AllRooted state.frames)
    (move : program.Move state after) : program.AllRooted after.frames := by
  cases move with
  | openLoop here => exact rooted.push ⟨_, here⟩
  | leaveLoop => exact rooted.pop
  | takeFirst => exact rooted.push trivial
  | passFirst => exact rooted.push trivial
  | takeElif _ top => exact rooted.replaceTop top trivial
  | takeElse _ top => exact rooted.replaceTop top trivial
  | closeChain => exact rooted.pop
  | _ => exact rooted

theorem AllRooted.failure {fault : Fault} (rooted : program.AllRooted state.frames)
    (failure : program.Failure state fault left) : program.AllRooted left.frames := by
  cases failure with
  | loopTooDeep here => exact rooted.push ⟨_, here⟩
  | takeTooDeep => exact rooted.push trivial
  | passTooDeep => exact rooted.push trivial
  | _ => exact rooted

theorem next?_lt {start found : Nat} {targets : List Keyword}
    (sought : program.outline.next? start targets = some found) : found < program.size := by
  rw [← program.size_outline]
  exact (Outline.next?_found sought).2.1

theorem pc_le_of_move (rooted : program.AllRooted state.frames)
    (move : program.Move state after) : after.pc ≤ program.size := by
  have next : state.pc + 1 ≤ program.size := pc_lt_of_move move
  cases move with
  | repeatLoop _ top =>
      obtain ⟨_, loop⟩ := rooted.top top
      exact lt_size_of_entry loop
  | passFirst _ _ found => exact Nat.le_of_lt (next?_lt found)
  | passElif _ _ _ found => exact Nat.le_of_lt (next?_lt found)
  | passElse _ _ found => exact Nat.le_of_lt (next?_lt found)
  | _ => exact next

/-- Lowering a statement opens and closes blocks as running it does. -/
theorem AllRooted.lower {layout : Bytecode.Layout} {address : Nat} {phrase : Phrase} {op : Op}
    {opened : Stack} {records : List Bytecode.Record} (rooted : program.AllRooted frames)
    (here : program.At address phrase op)
    (lowered : layout.lower program address phrase frames op = .ok (records, opened)) :
    program.AllRooted opened := by
  rcases (Bytecode.Layout.lower_eq_ok_iff.1 lowered).frames_cases with ⟨slot, rfl, rfl⟩ |
    ⟨slot, rfl, rfl⟩ | ⟨_, _, top, shape⟩ | ⟨_, _, rfl⟩
  · exact rooted.push ⟨_, here⟩
  · exact rooted.push trivial
  · intro frame member
    exact rooted frame (by rw [shape]; exact .tail _ member)
  · exact rooted

end Program

end Abacus
