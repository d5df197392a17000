import Abacus.Proofs.NamedMoves
import Abacus.Proofs.Runs

/-!
A run of a block that is written out flat does what the block means. Where the program reads the
statements of a block, the run goes through them with the blocks around it untouched, and comes
out behind them with the store that the block gives. Main statement: a whole run gives its
variables exactly when the block comes to that store, and overflows exactly when the block does.
-/

namespace Abacus.Program

open Structured

variable {program : Program} {address : Nat}

theorem next?_branchEnds (linked : program.WellLinked) (body : Block)
    {next : Statement String} {rest : List (Statement String)}
    (ends : next.keyword ∈ Keyword.branchEnds)
    (reads : program.Reads (address + 1) (body.statements ++ next :: rest)) :
    program.outline.next? address Keyword.branchEnds =
      some (address + 1 + body.statements.length) := by
  obtain ⟨inside, here, _⟩ := reads_append.1 reads
  have passes := Grammar.passed_of_derives program.outline (fun _ wanted => wanted) body.derives 0
  have word : program.outline.Reads (address + 1)
      (body.statements.map Statement.keyword ++ [next.keyword]) := by
    rw [Outline.reads_append, List.length_map]
    exact ⟨inside.outline linked, here.outline linked, trivial⟩
  have found := Outline.next?_of_passes passes word ends
  rw [List.length_map] at found
  exact found

theorem next?_chainEnds (linked : program.WellLinked) (body : Block) (others : Branches)
    (reads : program.Reads (address + 1)
      (body.statements ++ (others.statements ++ [.endIf]))) :
    program.outline.next? address Keyword.chainEnds =
      some (address + 1 + body.statements.length + others.statements.length) := by
  rw [← List.append_assoc] at reads
  obtain ⟨inside, here, _⟩ := reads_append.1 reads
  have branches := others.derives (.first body.derives)
  have passes := Grammar.passed_of_derives program.outline (by decide) branches 0 (.inr rfl)
  have word : program.outline.Reads (address + 1)
      ((body.statements.map Statement.keyword ++ others.statements.map Statement.keyword) ++
        [Keyword.endIf]) := by
    rw [← List.map_append, Outline.reads_append, List.length_map]
    exact ⟨inside.outline linked, here.outline linked, trivial⟩
  have found := Outline.next?_of_passes passes word (by decide)
  rw [List.length_append, List.length_map, List.length_map, ← Nat.add_assoc] at found
  exact found

theorem branches_append_endIf (others : Branches) :
    ∃ next rest, others.statements ++ [.endIf] = next :: rest ∧
      next.keyword ∈ Keyword.branchEnds := by
  cases others with
  | none => exact ⟨_, _, rfl, by decide⟩
  | elif name body rest =>
      exact ⟨.elifNonzero name, _, rfl, by simp [Statement.keyword, Keyword.branchEnds]⟩
  | otherwise body rest =>
      exact ⟨.elseBranch, _, rfl, by simp [Statement.keyword, Keyword.branchEnds]⟩

theorem next?_branch (linked : program.WellLinked) (body : Block) (others : Branches)
    (reads : program.Reads (address + 1)
      (body.statements ++ (others.statements ++ [.endIf]))) :
    program.outline.next? address Keyword.branchEnds =
      some (address + 1 + body.statements.length) := by
  obtain ⟨next, rest, shape, ends⟩ := branches_append_endIf others
  rw [shape] at reads
  exact next?_branchEnds linked body ends reads

/-- With a branch taken, or none left, the run goes by the other branches to the end of the
chain and leaves it. -/
theorem leave_chain {address : Nat} (linked : program.WellLinked) (store : Store)
    (frames : Stack) {resolved : Bool} (others : Branches)
    (finished : resolved = true ∨ others = .none)
    (reads : program.Reads address (others.statements ++ [.endIf])) :
    ∃ count, Steps program.Move count
      (program.stateAt store (frames.push (.chain resolved)) address)
      (program.stateAt store frames (address + others.statements.length + 1)) := by
  match others with
  | .none =>
      obtain ⟨last, _⟩ := reads
      exact ⟨1, .single (move_endIf last resolved)⟩
  | .elif name body rest =>
      obtain rfl : resolved = true := by simpa using finished
      rw [Branches.statements, List.cons_append, List.append_assoc] at reads
      obtain ⟨here, inside⟩ := reads
      have found := next?_branch linked body rest inside
      obtain ⟨count, steps⟩ :=
        leave_chain linked store frames rest (.inl rfl) (reads_append.1 inside).2
      have finish : address + 1 + body.statements.length + rest.statements.length + 1 =
          address + (Branches.elif name body rest).statements.length + 1 := by
        simp only [Branches.statements, List.length_cons, List.length_append]
        omega
      rw [finish] at steps
      exact ⟨count + 1, .cons (move_passElif linked here (.inl rfl) found) steps⟩
  | .otherwise body rest =>
      obtain rfl : resolved = true := by simpa using finished
      rw [Branches.statements, List.cons_append, List.append_assoc] at reads
      obtain ⟨here, inside⟩ := reads
      have found := next?_chainEnds linked body rest inside
      rw [← List.append_assoc] at inside
      obtain ⟨_, last, _⟩ := reads_append.1 inside
      have finish : address + 1 + body.statements.length + rest.statements.length =
          address + (Branches.otherwise body rest).statements.length := by
        simp only [Branches.statements, List.length_cons, List.length_append]
        omega
      rw [List.length_append, ← Nat.add_assoc, finish] at last
      rw [finish] at found
      exact ⟨2, .cons (move_passElse here found) (.single (move_endIf last true))⟩

/-- A run inside a chain is at the body of the branch it chose, with these branches behind it. If
it chose none, no branch is left. -/
structure Chose (program : Program) (body : Block) (address finish : Nat) (resolved : Bool)
    (others : Branches) : Prop where
  finished : resolved = true ∨ others = .none
  reads : program.Reads address (body.statements ++ (others.statements ++ [.endIf]))
  finish : address + body.statements.length + others.statements.length = finish

/-- With no branch taken so far the run comes to the body of the branch that the chain chooses. -/
theorem choose_branch {address : Nat} (linked : program.WellLinked) (store : Store)
    (frames : Stack) (others : Branches)
    (reads : program.Reads address (others.statements ++ [.endIf])) :
    ∃ count start resolved left,
      Steps program.Move count (program.stateAt store (frames.push (.chain false)) address)
          (program.stateAt store (frames.push (.chain resolved)) start) ∧
        program.Chose (others.chosen store) start (address + others.statements.length) resolved
          left := by
  match others with
  | .none => exact ⟨0, address, false, .none, .none _, .inr rfl, reads, rfl⟩
  | .elif name body rest =>
      rw [Branches.statements, List.cons_append, List.append_assoc] at reads
      obtain ⟨here, inside⟩ := reads
      have finish : address + 1 + body.statements.length + rest.statements.length =
          address + (Branches.elif name body rest).statements.length := by
        simp only [Branches.statements, List.length_cons, List.length_append]
        omega
      by_cases zero : store name = 0
      · have found := next?_branch linked body rest inside
        obtain ⟨count, start, resolved, left, steps, chose⟩ :=
          choose_branch linked store frames rest (reads_append.1 inside).2
        rw [finish] at chose
        refine ⟨count + 1, start, resolved, left,
          .cons (move_passElif linked here (.inr zero) found) steps, ?_⟩
        rw [Branches.chosen, if_pos zero]
        exact chose
      · refine ⟨1, address + 1, true, rest, .single (move_takeElif linked here zero), ?_⟩
        rw [Branches.chosen, if_neg zero]
        exact ⟨.inl rfl, inside, finish⟩
  | .otherwise body rest =>
      rw [Branches.statements, List.cons_append, List.append_assoc] at reads
      obtain ⟨here, inside⟩ := reads
      have finish : address + 1 + body.statements.length + rest.statements.length =
          address + (Branches.otherwise body rest).statements.length := by
        simp only [Branches.statements, List.length_cons, List.length_append]
        omega
      exact ⟨1, address + 1, true, rest, .single (move_takeElse here), .inl rfl, inside, finish⟩

theorem enter_chain (linked : program.WellLinked) (store : Store) {frames : Stack} {name : String}
    {first : Block} {others : Branches} (here : program.Holds address (.ifNonzero name))
    (reads : program.Reads (address + 1)
      (first.statements ++ (others.statements ++ [.endIf])))
    (room : frames.frames.length < Stack.limit) :
    ∃ count start resolved left,
      Steps program.Move (count + 1) (program.stateAt store frames address)
          (program.stateAt store (frames.push (.chain resolved)) start) ∧
        program.Chose ((Branches.elif name first others).chosen store) start
          (address + 1 + first.statements.length + others.statements.length) resolved left := by
  by_cases zero : store name = 0
  · have found := next?_branch linked first others reads
    obtain ⟨count, start, resolved, left, steps, chose⟩ :=
      choose_branch linked store frames others (reads_append.1 reads).2
    refine ⟨count, start, resolved, left,
      .cons (move_passFirst linked here zero room found) steps, ?_⟩
    rw [Branches.chosen, if_pos zero]
    exact chose
  · refine ⟨0, address + 1, true, others, .single (move_takeFirst linked here zero room), ?_⟩
    rw [Branches.chosen, if_neg zero]
    exact ⟨.inl rfl, reads, rfl⟩

theorem Reads.loop {name : String} {body rest : Block}
    (reads : program.Reads address (Block.loop name body rest).statements) :
    program.Holds address (.whileNonzero name) ∧
      program.Reads (address + 1) body.statements ∧
      program.Holds (address + 1 + body.statements.length) .endWhile ∧
      program.Reads (address + 1 + body.statements.length + 1) rest.statements := by
  obtain ⟨here, inside⟩ := reads
  obtain ⟨body, last, onward⟩ := reads_append.1 inside
  exact ⟨here, body, last, onward⟩

theorem Reads.chain {name : String} {first rest : Block} {others : Branches}
    (reads : program.Reads address (Block.chain name first others rest).statements) :
    program.Holds address (.ifNonzero name) ∧
      program.Reads (address + 1) (first.statements ++ (others.statements ++ [.endIf])) ∧
      program.Reads (address + 1 + first.statements.length + others.statements.length + 1)
        rest.statements := by
  obtain ⟨here, inside⟩ := reads
  obtain ⟨body, branches⟩ := reads_append.1 inside
  obtain ⟨headers, last, onward⟩ := reads_append.1 branches
  exact ⟨here, reads_append.2 ⟨body, reads_append.2 ⟨headers, last, trivial⟩⟩, onward⟩

/-- The run comes to an outcome: to `finish` with the store of the outcome, or to an overflow. -/
def Arrives (program : Program) (start : State) (frames : Stack) (finish : Nat) : Outcome → Prop
  | .finished store =>
    ∃ count, Steps program.Move count start (program.stateAt store frames finish)
  | .overflowed store =>
    ∃ fault left, program.Fails start fault left ∧ fault.kind = .overflow ∧
      left.vars = store.table program.slots.names

theorem Arrives.after {frames : Stack} {start middle : State} {finish count : Nat}
    {outcome : Outcome} (steps : Steps program.Move count start middle)
    (arrives : program.Arrives middle frames finish outcome) :
    program.Arrives start frames finish outcome := by
  cases outcome with
  | finished store =>
      obtain ⟨more, rest⟩ := arrives
      exact ⟨count + more, steps.append rest⟩
  | overflowed store =>
      obtain ⟨fault, left, ⟨last, ⟨more, rest⟩, failure⟩, kind, vars⟩ := arrives
      exact ⟨fault, left, ⟨last, ⟨count + more, steps.append rest⟩, failure⟩, kind, vars⟩

theorem Arrives.before {frames : Stack} {start next : State} {finish : Nat} {outcome : Outcome}
    (move : program.Move start next) (away : start.pc ≠ finish)
    (arrives : program.Arrives start frames finish outcome) :
    program.Arrives next frames finish outcome := by
  cases outcome with
  | finished store =>
      obtain ⟨count, steps⟩ := arrives
      cases steps with
      | none => exact absurd rfl away
      | cons first rest =>
          obtain rfl := program.move_deterministic _ _ _ first move
          exact ⟨_, rest⟩
  | overflowed store =>
      obtain ⟨fault, left, ⟨last, ⟨count, steps⟩, failure⟩, kind, vars⟩ := arrives
      cases steps with
      | none => exact absurd move (final_of_failure failure next)
      | cons first rest =>
          obtain rfl := program.move_deterministic _ _ _ first move
          exact ⟨fault, left, ⟨last, ⟨_, rest⟩, failure⟩, kind, vars⟩

theorem arrives_of_failure {store : Store} {frames : Stack} {finish : Nat}
    (failure : ∃ fault, program.Failure (program.stateAt store frames address) fault
      (program.stateAt store frames address) ∧ fault.kind = .overflow) :
    program.Arrives (program.stateAt store frames address) frames finish (.overflowed store) := by
  obtain ⟨fault, failure, kind⟩ := failure
  exact ⟨fault, _, ⟨_, ⟨0, .none _⟩, failure⟩, kind, rfl⟩

theorem room_loop {frames : Stack} {name : String} {body rest : Block}
    (room : frames.frames.length + (Block.loop name body rest).depth ≤ Stack.limit) :
    frames.frames.length < Stack.limit ∧
      (∀ frame, (frames.push frame).frames.length + body.depth ≤ Stack.limit) ∧
      frames.frames.length + rest.depth ≤ Stack.limit := by
  simp only [Block.depth] at room
  refine ⟨by omega, ?_, by omega⟩
  intro frame
  rw [Stack.frames_push, List.length_cons]
  omega

theorem room_chain {frames : Stack} {name : String} {first rest : Block} {others : Branches}
    (store : Store)
    (room : frames.frames.length + (Block.chain name first others rest).depth ≤ Stack.limit) :
    frames.frames.length < Stack.limit ∧
      (∀ frame, (frames.push frame).frames.length +
        ((Branches.elif name first others).chosen store).depth ≤ Stack.limit) ∧
      frames.frames.length + rest.depth ≤ Stack.limit := by
  have chosen := (Branches.elif name first others).depth_chosen_le store
  simp only [Block.depth] at room
  simp only [Branches.depth] at chosen
  refine ⟨by omega, ?_, by omega⟩
  intro frame
  rw [Stack.frames_push, List.length_cons]
  omega

/-- The run of a block comes to every outcome of the block. -/
theorem arrives_of_eval (linked : program.WellLinked) {block : Block} {store : Store}
    {outcome : Outcome} (eval : Eval block store outcome) (frames : Stack) {address finish : Nat}
    (reads : program.Reads address block.statements)
    (room : frames.frames.length + block.depth ≤ Stack.limit)
    (behind : address + block.statements.length = finish) :
    program.Arrives (program.stateAt store frames address) frames finish outcome := by
  induction eval generalizing frames address finish with
  | done =>
      subst behind
      exact ⟨0, .none _⟩
  | clear _ induction =>
      obtain ⟨here, onward⟩ := reads
      simp only [Block.statements, List.length_cons] at behind
      exact (induction frames onward room (by omega)).after (.single (move_clear linked here))
  | incr fits _ induction =>
      obtain ⟨here, onward⟩ := reads
      simp only [Block.statements, List.length_cons] at behind
      exact (induction frames onward room (by omega)).after (.single (move_incr linked here fits))
  | decr fits _ induction =>
      obtain ⟨here, onward⟩ := reads
      simp only [Block.statements, List.length_cons] at behind
      exact (induction frames onward room (by omega)).after (.single (move_decr linked here fits))
  | incrOver overflows => exact arrives_of_failure (failure_incr linked reads.1 overflows)
  | decrOver overflows => exact arrives_of_failure (failure_decr linked reads.1 overflows)
  | @loopOver name _ _ _ _ _ induction =>
      obtain ⟨here, inside, _⟩ := reads.loop
      obtain ⟨free, deeper, _⟩ := room_loop room
      exact (induction _ inside (deeper _) rfl).after (.single (move_while here free))
  | @loopAgain name _ _ store between _ _ nonzero _ inner again =>
      obtain ⟨here, inside, last, _⟩ := reads.loop
      obtain ⟨free, deeper, _⟩ := room_loop room
      have away : address ≠ finish := by
        simp only [Block.statements, List.length_cons] at behind
        omega
      have whole := (again frames reads room behind).before (move_while here free) away
      -- The run goes back to the body, past the `while` that the rest of the meaning starts from.
      have back := whole.after (.single (move_repeat linked (here.2 name rfl) address last nonzero))
      obtain ⟨_, through⟩ := inner _ inside (deeper _) rfl
      exact (back.after through).after (.single (move_while here free))
  | @loopLeave name body rest _ _ _ _ zero _ inner onward =>
      obtain ⟨here, inside, last, tail⟩ := reads.loop
      obtain ⟨free, deeper, later⟩ := room_loop room
      have total : address + 1 + body.statements.length + 1 + rest.statements.length = finish := by
        simp only [Block.statements, List.length_cons, List.length_append] at behind
        omega
      have beyond := onward frames tail later total
      have out := beyond.after (.single (move_leave linked (here.2 name rfl) address last zero))
      obtain ⟨_, through⟩ := inner _ inside (deeper _) rfl
      exact (out.after through).after (.single (move_while here free))
  | @chainOver name first _ others store _ _ induction =>
      obtain ⟨here, branches, _⟩ := reads.chain
      obtain ⟨free, deeper, _⟩ := room_chain store room
      obtain ⟨_, _, resolved, _, steps, chose⟩ := enter_chain linked store here branches free
      exact (induction _ (reads_append.1 chose.reads).1 (deeper _) rfl).after steps
  | @chain name first rest others store between _ _ _ inner onward =>
      obtain ⟨here, branches, tail⟩ := reads.chain
      obtain ⟨free, deeper, later⟩ := room_chain store room
      obtain ⟨_, _, resolved, left, steps, chose⟩ := enter_chain linked store here branches free
      obtain ⟨body, behindBody⟩ := reads_append.1 chose.reads
      obtain ⟨_, through⟩ := inner _ body (deeper (.chain resolved)) rfl
      obtain ⟨_, out⟩ := leave_chain linked between frames left chose.finished behindBody
      rw [chose.finish] at out
      have total : address + 1 + first.statements.length + others.statements.length + 1 +
          rest.statements.length = finish := by
        simp only [Block.statements, List.length_cons, List.length_append] at behind
        omega
      have beyond := onward frames tail later total
      exact ((beyond.after out).after through).after steps

/-- A block whose run comes to an end has an outcome. -/
theorem eval_of_ends (linked : program.WellLinked) {count : Nat} {block : Block} {store : Store}
    {frames : Stack} {address : Nat} {last : State}
    (reads : program.Reads address block.statements)
    (room : frames.frames.length + block.depth ≤ Stack.limit)
    (steps : Steps program.Move count (program.stateAt store frames address) last)
    (final : Final program.Move last) : ∃ outcome, Eval block store outcome := by
  -- On the number of moves left: whatever the block starts with takes at least one.
  induction count using Nat.strongRecOn generalizing block store frames address with
  | _ count induction =>
      have onward : ∀ {front : Nat} {middle : State},
          Steps program.Move front (program.stateAt store frames address) middle →
          ∃ rest, count = front + rest ∧ Steps program.Move rest middle last :=
        fun front => steps.rest_of_final program.move_deterministic final front
      cases block with
      | done => exact ⟨_, .done⟩
      | clear name rest =>
          obtain ⟨here, tail⟩ := reads
          obtain ⟨left, rfl, more⟩ := onward (.single (move_clear linked here))
          obtain ⟨outcome, eval⟩ := induction left (by omega) tail room more
          exact ⟨outcome, .clear eval⟩
      | incr name rest =>
          obtain ⟨here, tail⟩ := reads
          cases fits : Value.succ? (store name) with
          | none => exact ⟨_, .incrOver fits⟩
          | some value =>
              obtain ⟨left, rfl, more⟩ := onward (.single (move_incr linked here fits))
              obtain ⟨outcome, eval⟩ := induction left (by omega) tail room more
              exact ⟨outcome, .incr fits eval⟩
      | decr name rest =>
          obtain ⟨here, tail⟩ := reads
          cases fits : Value.pred? (store name) with
          | none => exact ⟨_, .decrOver fits⟩
          | some value =>
              obtain ⟨left, rfl, more⟩ := onward (.single (move_decr linked here fits))
              obtain ⟨outcome, eval⟩ := induction left (by omega) tail room more
              exact ⟨outcome, .decr fits eval⟩
      | loop name body rest =>
          obtain ⟨here, inside, close, tail⟩ := reads.loop
          obtain ⟨free, deeper, later⟩ := room_loop room
          obtain ⟨left, rfl, more⟩ := onward (.single (move_while here free))
          obtain ⟨outcome, inner⟩ := induction left (by omega) inside (deeper _) more
          cases outcome with
          | overflowed between => exact ⟨_, .loopOver inner⟩
          | finished between =>
              obtain ⟨_, through⟩ := arrives_of_eval linked inner _ inside (deeper _) rfl
              by_cases zero : between name = 0
              · obtain ⟨fewer, rfl, rest⟩ := more.rest_of_final program.move_deterministic final
                  (through.append
                    (.single (move_leave linked (here.2 name rfl) address close zero)))
                obtain ⟨outcome, eval⟩ := induction fewer (by omega) tail later rest
                exact ⟨outcome, .loopLeave inner zero eval⟩
              · obtain ⟨fewer, rfl, rest⟩ := more.rest_of_final program.move_deterministic final
                  (through.append
                    (.single (move_repeat linked (here.2 name rfl) address close zero)))
                -- The rest of the run is that of the loop from its `while` on, less one move.
                obtain ⟨outcome, eval⟩ := induction (fewer + 1) (by omega) reads room
                  (.cons (move_while here free) rest)
                exact ⟨outcome, .loopAgain inner zero eval⟩
      | chain name first others rest =>
          obtain ⟨here, branches, tail⟩ := reads.chain
          obtain ⟨free, deeper, later⟩ := room_chain store room
          obtain ⟨front, _, resolved, left, entering, chose⟩ :=
            enter_chain linked store here branches free
          obtain ⟨fewer, rfl, more⟩ := onward entering
          obtain ⟨body, behind⟩ := reads_append.1 chose.reads
          obtain ⟨outcome, inner⟩ := induction fewer (by omega) body (deeper _) more
          cases outcome with
          | overflowed between => exact ⟨_, .chainOver inner⟩
          | finished between =>
              obtain ⟨_, through⟩ := arrives_of_eval linked inner _ body (deeper _) rfl
              obtain ⟨_, out⟩ := leave_chain linked between frames left chose.finished behind
              rw [chose.finish] at out
              obtain ⟨fewest, rfl, rest⟩ := more.rest_of_final program.move_deterministic final
                (through.append out)
              obtain ⟨outcome, eval⟩ := induction fewest (by omega) tail later rest
              exact ⟨outcome, .chain inner eval⟩

end Abacus.Program
