import Mathlib.Data.List.Forall2
import Abacus.Proofs.CompileFaults
import Abacus.Proofs.FailedStatements

/-!
Where the open blocks come from. The open blocks of a run, from the outermost to the innermost, were
opened by statements at rising addresses, all before the next phrase; so there are never more of
them than such statements, however often loops go round. Main statement: this holds in every
program, whether its blocks match or not, and only a program with more statements that open blocks
than the stack has room for can be too deep, for its runs and for the compiler alike.
-/

namespace Abacus

def Linked.opensBlock (linked : Linked) : Bool :=
  linked.op?.any fun op => op.keyword.opensBlock

namespace Program

variable {program : Program} {state after last left : State} {address ceiling : Nat}
  {frame : Frame} {below : List Frame} {fault : Fault}

def openings (program : Program) (address : Nat) : Nat :=
  (program.entries.toList.take address).countP fun entry => entry.linked.opensBlock

theorem openings_mono {early late : Nat} (order : early ≤ late) :
    program.openings early ≤ program.openings late :=
  (List.take_sublist_take_left order).countP_le

theorem openings_of_at {phrase : Phrase} {op : Op} (here : program.At address phrase op)
    (opens : op.keyword.opensBlock = true) (before : address < ceiling) :
    program.openings address < program.openings ceiling := by
  have next : program.entries.toList[address]? = some ⟨phrase, .op op⟩ := by
    rw [Array.getElem?_toList]
    exact here
  have one : program.openings (address + 1) = program.openings address + 1 := by
    rw [openings, List.take_add_one, next, List.countP_append]
    simp [openings, Linked.opensBlock, Linked.op?, opens]
  have rest : program.openings (address + 1) ≤ program.openings ceiling := openings_mono before
  omega

/-- The innermost of a row of frames was opened below a ceiling, and each other one below the
address at which the one inside it was opened. -/
inductive Opened (program : Program) : (ceiling : Nat) → List Frame → Prop
  | none (ceiling : Nat) : Opened program ceiling []
  | frame {ceiling address : Nat} {frame : Frame} {below : List Frame} (earlier : address < ceiling)
      (opens : program.Opens address frame) (rest : Opened program address below) :
      Opened program ceiling (frame :: below)

theorem Opened.raise {frames : List Frame} (opened : program.Opened address frames)
    (order : address ≤ ceiling) : program.Opened ceiling frames := by
  cases opened with
  | none => exact .none ceiling
  | frame earlier opens rest => exact .frame (Nat.lt_of_lt_of_le earlier order) opens rest

theorem Opened.pop (opened : program.Opened ceiling (frame :: below)) :
    program.Opened ceiling below := by
  cases opened with
  | frame earlier _ rest => exact rest.raise (Nat.le_of_lt earlier)

theorem Opened.openers {frames : List Frame} (opened : program.Opened ceiling frames) :
    ∃ openers : List Nat, (openers ++ [ceiling]).Pairwise (· < ·) ∧
      List.Forall₂ program.Opens openers frames.reverse := by
  induction opened with
  | none => exact ⟨[], by simp, .nil⟩
  | @frame ceiling address frame below earlier opens _ induction =>
      obtain ⟨openers, rising, each⟩ := induction
      refine ⟨openers ++ [address], ?_, ?_⟩
      · rw [List.pairwise_append] at rising ⊢
        refine ⟨List.pairwise_append.2 rising, by simp, ?_⟩
        intro opener member limit same
        rw [List.mem_singleton] at same
        rcases List.mem_append.1 member with outer | own
        · exact same ▸ Nat.lt_trans (rising.2.2 opener outer address (by simp)) earlier
        · rw [List.mem_singleton] at own
          exact own ▸ same ▸ earlier
      · rw [List.reverse_cons]
        exact List.rel_append each (.cons opens .nil)

theorem Opens.exists_at (opens : program.Opens address frame) :
    ∃ phrase op, program.At address phrase op ∧ op.keyword.opensBlock = true := by
  cases frame with
  | loop =>
      obtain ⟨_, phrase, here⟩ := opens
      exact ⟨phrase, _, here, rfl⟩
  | chain =>
      obtain ⟨phrase, slot, here⟩ := opens
      exact ⟨phrase, _, here, rfl⟩

/-- There are no more open blocks than statements that could have opened them. -/
theorem Opened.length_le {frames : List Frame} (opened : program.Opened ceiling frames) :
    frames.length ≤ program.openings ceiling := by
  induction opened with
  | none => exact Nat.zero_le _
  | frame earlier opens _ induction =>
      obtain ⟨_, _, here, own⟩ := opens.exists_at
      exact Nat.lt_of_le_of_lt induction (openings_of_at here own earlier)

theorem Opened.resolve {known resolved : Bool}
    (opened : program.Opened ceiling (.chain known :: below)) :
    program.Opened ceiling (.chain resolved :: below) := by
  cases opened with
  | frame earlier opens rest => exact .frame earlier opens rest

theorem Opened.move (opened : program.Opened state.pc state.frames.frames)
    (move : program.Move state after) : program.Opened after.pc after.frames.frames := by
  have next := opened.raise (Nat.le_succ state.pc)
  have later : ∀ {targets : List Keyword} {address : Nat},
      program.outline.next? state.pc targets = some address → state.pc < address :=
    fun found => (Outline.next?_found found).1
  cases move with
  | skip | clear | incr | decr => exact next
  | openLoop here => exact .frame (Nat.lt_succ_self _) ⟨rfl, _, here⟩ opened
  | takeFirst here => exact .frame (Nat.lt_succ_self _) ⟨_, _, here⟩ opened
  | passFirst here _ found => exact .frame (later found) ⟨_, _, here⟩ opened
  | leaveLoop _ top | closeChain _ top =>
      rw [Stack.frames_of_top? top] at next
      exact next.pop
  | repeatLoop _ top =>
      -- The loop goes back to the address at which it was opened, below which the others were.
      rw [Stack.frames_of_top? top] at opened ⊢
      cases opened with
      | frame _ opens rest =>
          obtain ⟨rfl, _⟩ := id opens
          exact .frame (Nat.lt_succ_self _) opens rest
  | takeElif _ top | takeElse _ top =>
      rw [Stack.frames_of_top? top] at next
      rw [Stack.frames_replaceTop top]
      exact next.resolve
  | passElif _ _ _ found | passElse _ _ found => exact opened.raise (Nat.le_of_lt (later found))

theorem opened_of_steps {count : Nat} (steps : Steps program.Move count state after)
    (opened : program.Opened state.pc state.frames.frames) :
    program.Opened after.pc after.frames.frames := by
  induction steps with
  | none => exact opened
  | cons move _ induction => exact induction (opened.move move)

theorem opened_of_reachable (reachable : program.Reachable state) (running : state.done = false) :
    program.Opened state.pc state.frames.frames := by
  obtain ⟨_, steps⟩ := steps_of_reachable reachable running
  have opened : program.Opened state.quiet.pc state.quiet.frames.frames :=
    opened_of_steps steps (.none 0)
  exact opened

/-- Where one block more is too deep, the program has more statements that open blocks than there
is room for. -/
theorem Opened.crowded {phrase : Phrase} {op : Op} {frames : Stack}
    (opened : program.Opened address frames.frames) (here : program.At address phrase op)
    (opens : op.keyword.opensBlock = true) (full : (frames.push frame).overfull = true) :
    Stack.limit < program.openings program.size := by
  have depth := opened.length_le
  have own := openings_of_at here opens (lt_size_of_entry here)
  rw [Stack.overfull_iff, Stack.frames_push, List.length_cons] at full
  omega

theorem crowded_of_failure (linked : program.WellLinked)
    (opened : program.Opened state.pc state.frames.frames)
    (failure : program.Failure state fault left) (deep : fault.kind = .outOfMemory) :
    Stack.limit < program.openings program.size := by
  cases failure with
  | broken here =>
      obtain ⟨_, kind | kind⟩ := linked.recorded here <;> rw [deep] at kind <;> cases kind
  | loopTooDeep here full => exact opened.crowded here rfl full
  | takeTooDeep here _ full => exact opened.crowded here rfl full
  | passTooDeep here _ _ full => exact opened.crowded here rfl full
  | incr | decr | strayEnd | strayElif | strayElse | strayEndIf | unclosedIf | unclosedElif
  | unclosedElse => cases deep

theorem crowded_of_execute (linked : program.WellLinked) {cycles : Nat}
    (reachable : program.Reachable state)
    (failed : program.execute cycles state = (.failed fault, left))
    (deep : fault.kind = .outOfMemory) : Stack.limit < program.openings program.size := by
  obtain ⟨going, _, _, _, _, _, steps, failure, _⟩ := failure_of_execute failed (by simp [deep])
  have opened := opened_of_steps steps (opened_of_reachable reachable going)
  exact crowded_of_failure linked opened failure deep

theorem crowded_of_run? (linked : program.WellLinked) {rounds : Nat}
    (reachable : program.Reachable state)
    (failed : program.run? rounds state = some (some fault, left))
    (deep : fault.kind = .outOfMemory) : Stack.limit < program.openings program.size := by
  induction rounds generalizing state with
  | zero => cases failed
  | succ rounds induction =>
      have onward := reachable.execute roundCycles
      simp only [run?] at failed
      cases called : program.execute roundCycles state with
      | mk event next =>
          rw [called] at failed onward
          cases event with
          | running => exact induction onward failed
          | traced text => exact induction onward failed
          | stopped => cases failed
          | failed other =>
              cases failed
              exact crowded_of_execute linked reachable called deep

end Program

namespace Bytecode.Layout

variable {layout : Layout} {program : Program} {address : Nat} {fault : Fault}

theorem sound_before (inside : address < program.size)
    (sound : (layout.draftBefore program (address + 1)).fault? = none) :
    (layout.draftBefore program address).fault? = none := by
  have next := draftBefore_add layout (Nat.le_of_lt inside) 1
  cases met : (layout.draftBefore program address).fault? with
  | none => rfl
  | some fault =>
      rw [met] at next
      rw [next, met] at sound
      cases sound

/-- The blocks that the compiler has open, as far as it comes, have their openers as well. -/
theorem opened_before (inside : address ≤ program.size)
    (sound : (layout.draftBefore program address).fault? = none) :
    program.Opened address (layout.framesBefore program address).frames := by
  induction address with
  | zero => exact .none 0
  | succ address induction =>
      have earlier := sound_before inside sound
      have before := induction (Nat.le_of_lt inside) earlier
      obtain ⟨⟨phrase, linked⟩, here⟩ : ∃ entry, program.entries[address]? = some entry :=
        ⟨_, Array.getElem?_eq_getElem inside⟩
      have next := draftBefore_next here earlier
      have raised := before.raise (Nat.le_succ address)
      cases linked with
      | skipped | broken =>
          rw [framesBefore, next]
          exact raised
      | op op =>
          simp only [lowerFrom, Linked.op?] at next
          cases lowered : layout.lower program address phrase
              (layout.draftBefore program address).frames op with
          | error fault =>
              rw [lowered] at next
              rw [next] at sound
              cases sound
          | ok result =>
              obtain ⟨records, after⟩ := result
              rw [lowered] at next
              rw [framesBefore, next]
              rcases (lower_eq_ok_iff.1 lowered).frames_cases with ⟨slot, rfl, rfl⟩ |
                ⟨slot, rfl, rfl⟩ | ⟨_, _, top, shape⟩ | ⟨_, _, rfl⟩
              · exact .frame (Nat.lt_succ_self _) ⟨rfl, _, here⟩ before
              · exact .frame (Nat.lt_succ_self _) ⟨_, _, here⟩ before
              · rw [framesBefore, shape] at raised
                exact raised.pop
              · exact raised

end Bytecode.Layout

namespace Program

open Bytecode

variable {program : Program} {fault : Fault}

theorem crowded_of_compile (linked : program.WellLinked) (refused : program.compile = .error fault)
    (deep : fault.kind = .outOfMemory) : Stack.limit < program.openings program.size := by
  rcases compile_cases linked with ⟨other, unlaid, answer⟩ | ⟨layout, other, _, met, answer⟩ |
    ⟨_, _, _, answer⟩
  · rw [answer] at refused
    cases refused
    rcases kind_ofProgram linked unlaid with kind | kind <;> rw [deep] at kind <;> cases kind
  · rw [answer] at refused
    cases refused
    rw [← Layout.draftBefore_size] at met
    obtain ⟨place, phrase, op, here, sound, lowered⟩ :=
      Layout.exists_refused (Nat.le_refl _) met
    have opened := Layout.opened_before (Nat.le_of_lt (lt_size_of_entry here)) sound
    rcases Layout.refusal_cases lowered with ⟨_, opens, _, full⟩ | ⟨kind, _⟩ | kind
    · exact opened.crowded here opens full
    · rw [deep] at kind
      cases kind
    · simp [deep] at kind
  · rw [answer] at refused
    cases refused

/-- The frames of a run that is not over have their openers in order before the next phrase, and no
report of too deep a nesting comes from a program with fewer than 65536 statements that open
blocks. -/
theorem frames_never_leak {phrases : Array Phrase} {state : State}
    (reachable : (ofPhrases phrases).Reachable state) :
    (state.done = false →
      (∃ openers : List Nat, (openers ++ [state.pc]).Pairwise (· < ·) ∧
        List.Forall₂ (ofPhrases phrases).Opens openers state.frames.frames.reverse) ∧
      state.frames.depth ≤ (ofPhrases phrases).openings state.pc) ∧
    (∀ cycles fault left,
      (ofPhrases phrases).execute cycles state = (.failed fault, left) →
      fault.kind = .outOfMemory →
      65535 < (ofPhrases phrases).openings (ofPhrases phrases).size) ∧
    (∀ rounds fault left,
      (ofPhrases phrases).run? rounds state = some (some fault, left) →
      fault.kind = .outOfMemory →
      65535 < (ofPhrases phrases).openings (ofPhrases phrases).size) ∧
    ∀ fault, (ofPhrases phrases).compile = .error fault → fault.kind = .outOfMemory →
      65535 < (ofPhrases phrases).openings (ofPhrases phrases).size := by
  have linked := wellLinked_ofPhrases phrases
  refine ⟨?_, ?_, ?_, ?_⟩
  · intro running
    have opened := opened_of_reachable reachable running
    refine ⟨opened.openers, ?_⟩
    rw [← state.frames.depth_eq]
    exact opened.length_le
  · intro cycles fault left failed deep
    exact crowded_of_execute linked reachable failed deep
  · intro rounds fault left failed deep
    exact crowded_of_run? linked reachable failed deep
  · intro fault refused deep
    exact crowded_of_compile linked refused deep

def crossed : Array Phrase :=
  #["incr x", "incr x", "while x", "if a", "while b", "endif", "else", "decr x", "endif",
    "end"].map (Phrase.mk 1)

/-- The second time around the jump to the `else` again passes over the `while` inside. -/
theorem frames_never_leak_crossed :
    ∃ state, (ofPhrases crossed).Reachable state ∧ state.done = false ∧ state.pc = 7 ∧
      state.vars.fetch 0 = 1 ∧ state.frames.frames = [.chain true, .loop 2 0] ∧
      (∃ openers : List Nat, (openers ++ [state.pc]).Pairwise (· < ·) ∧
        List.Forall₂ (ofPhrases crossed).Opens openers state.frames.frames.reverse) ∧
      state.frames.depth ≤ (ofPhrases crossed).openings state.pc ∧
      ∀ cycles fault left, (ofPhrases crossed).execute cycles state = (.failed fault, left) →
        fault.kind = .outOfMemory →
        65535 < (ofPhrases crossed).openings (ofPhrases crossed).size := by
  have reachable : (ofPhrases crossed).Reachable
      ((ofPhrases crossed).execute 10 (.start (ofPhrases crossed))).2 := .execute 10 .start
  have running : ((ofPhrases crossed).execute 10 (.start (ofPhrases crossed))).2.done = false := by
    decide +kernel
  obtain ⟨opened, reports, _⟩ := frames_never_leak reachable
  exact ⟨_, reachable, running, by decide +kernel, by decide +kernel, by decide +kernel,
    (opened running).1, (opened running).2, reports⟩

end Program

end Abacus
