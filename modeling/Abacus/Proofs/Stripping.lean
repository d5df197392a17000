import Abacus.Proofs.Rooted

/-!
Taking the skipped phrases out of a program. What remains is linked as before; each address moves
down by the number of phrases taken out before it. Searches in the outline and single steps of a
run commute with this renumbering.
-/

namespace Abacus

theorem getElem?_filter_countP {α : Type} {keeps : α → Bool} {items : List α} {place : Nat}
    {item : α} (here : items[place]? = some item) (kept : keeps item = true) :
    (items.filter keeps)[(items.take place).countP keeps]? = some item := by
  obtain ⟨inside, rfl⟩ := List.getElem?_eq_some_iff.1 here
  have cut : items.filter keeps =
      (items.take place).filter keeps ++
        items[place] :: (items.drop (place + 1)).filter keeps := by
    conv_lhs => rw [← List.take_append_drop place items, List.drop_eq_getElem_cons inside]
    rw [List.filter_append, List.filter_cons_of_pos kept]
  rw [cut, List.countP_eq_length_filter, List.getElem?_append_right (Nat.le_refl _), Nat.sub_self]
  rfl

def Entry.isKept (entry : Entry) : Bool := !entry.phrase.isSkipped

theorem Entry.Faithful.isKept_iff {slots : Slots} {entry : Entry}
    (faithful : entry.Faithful slots) : entry.isKept = true ↔ entry.linked ≠ .skipped := by
  cases faithful with
  | skipped blank => simp [isKept, blank]
  | op spelled => simp [isKept, spelled.1]
  | crowded spelled => simp [isKept, spelled.1]
  | @malformed phrase fault refused =>
      cases skipped : phrase.isSkipped with
      | false => simp [isKept, skipped]
      | true =>
          rw [Phrase.parse_eq_none_iff.2 skipped] at refused
          cases refused

namespace Program

/-- Where an address comes to stand when the skipped phrases are taken out. -/
def rank (program : Program) (address : Nat) : Nat :=
  (program.entries.toList.take address).countP Entry.isKept

structure Strips (short program : Program) : Prop where
  entries : short.entries.toList = program.entries.toList.filter Entry.isKept
  slots : short.slots = program.slots
  linked : program.WellLinked

theorem foldl_next_filter (phrases : List Phrase) (linking : Linking) :
    ((phrases.filter fun phrase => !phrase.isSkipped).foldl Linking.next
          ⟨linking.entries.filter Entry.isKept, linking.slots⟩).entries =
        (phrases.foldl Linking.next linking).entries.filter Entry.isKept ∧
      ((phrases.filter fun phrase => !phrase.isSkipped).foldl Linking.next
          ⟨linking.entries.filter Entry.isKept, linking.slots⟩).slots =
        (phrases.foldl Linking.next linking).slots := by
  induction phrases generalizing linking with
  | nil => exact ⟨rfl, rfl⟩
  | cons phrase phrases induction =>
      have rest := induction (linking.next phrase)
      cases skipped : phrase.isSkipped with
      | true =>
          have linked : phrase.link linking.slots = (.skipped, linking.slots) := by
            simp [Phrase.link, Phrase.parse_eq_none_iff.2 skipped]
          have same : (linking.next phrase).entries.filter Entry.isKept =
              linking.entries.filter Entry.isKept := by
            simp [Linking.next, linked, Entry.isKept, skipped]
          have slots : (linking.next phrase).slots = linking.slots := by
            simp [Linking.next, linked]
          rw [same, slots] at rest
          simpa [skipped] using rest
      | false =>
          have next : Linking.next ⟨linking.entries.filter Entry.isKept, linking.slots⟩ phrase =
              ⟨(linking.next phrase).entries.filter Entry.isKept, (linking.next phrase).slots⟩ := by
            simp [Linking.next, Entry.isKept, skipped]
          rw [List.filter_cons_of_pos (by simp [skipped]), List.foldl_cons, next]
          exact rest

/-- Linking gives the phrases that are kept the same meaning without the others. -/
theorem strips_ofPhrases (phrases : Array Phrase) :
    Strips (ofPhrases (phrases.filter fun phrase => !phrase.isSkipped)) (ofPhrases phrases) := by
  have both := foldl_next_filter phrases.toList {}
  simp only [← Array.toList_filter, Array.foldl_toList] at both
  refine ⟨?_, both.2, wellLinked_ofPhrases phrases⟩
  rw [← Array.toList_filter]
  exact congrArg Array.toList both.1

section Rank

variable {short program : Program} {address : Nat} {item : Entry} {phrase : Phrase}

theorem rank_succ (here : program.entries[address]? = some item) :
    program.rank (address + 1) = program.rank address + if item.isKept then 1 else 0 := by
  have next : program.entries.toList[address]? = some item := by
    rw [Array.getElem?_toList, here]
  simp [rank, List.take_add_one, next, List.countP_singleton]

theorem Strips.rank_past (strips : Strips short program) (past : program.size ≤ address) :
    program.rank address = short.size := by
  have length := congrArg List.length strips.entries
  rw [Array.length_toList] at length
  rw [rank, List.take_of_length_le past, List.countP_eq_length_filter, ← length]
  rfl

theorem Strips.isKept_iff (strips : Strips short program)
    (here : program.entries[address]? = some item) :
    item.isKept = true ↔ item.linked ≠ .skipped :=
  (strips.linked.faithful item (Array.mem_of_getElem? here)).isKept_iff

theorem Strips.kept (strips : Strips short program)
    (here : program.entries[address]? = some item) (kept : item.linked ≠ .skipped) :
    short.entries[program.rank address]? = some item ∧
      program.rank (address + 1) = program.rank address + 1 := by
  have stays := (strips.isKept_iff here).2 kept
  refine ⟨?_, by rw [rank_succ here, if_pos stays]⟩
  rw [← Array.getElem?_toList, strips.entries]
  rw [← Array.getElem?_toList] at here
  exact getElem?_filter_countP here stays

theorem Strips.at (strips : Strips short program) {op : Op}
    (here : program.At address phrase op) :
    short.At (program.rank address) phrase op ∧
      program.rank (address + 1) = program.rank address + 1 :=
  strips.kept here (by simp)

theorem Strips.rank_skipped (strips : Strips short program)
    (here : program.entries[address]? = some ⟨phrase, .skipped⟩) :
    program.rank (address + 1) = program.rank address := by
  have gone : ¬ Entry.isKept ⟨phrase, .skipped⟩ = true := by simp [strips.isKept_iff here]
  rw [rank_succ here, if_neg gone, Nat.add_zero]

theorem outline_of_entry (here : program.entries[address]? = some item) :
    program.outline[address]? = some item.phrase.keyword? := by
  rw [outline_eq_map, Array.getElem?_map, here]
  rfl

/-- A search goes through the kept phrases in the same way. -/
theorem Strips.seek (strips : Strips short program) (targets : List Keyword) {left index : Nat}
    (rest : index + left = program.size) (depth : Nat) :
    short.outline.seek targets (short.size - program.rank index) (program.rank index) depth =
      (program.outline.seek targets left index depth).map program.rank := by
  induction left generalizing index depth with
  | zero =>
      rw [Nat.add_zero] at rest
      rw [strips.rank_past (Nat.le_of_eq rest.symm), Nat.sub_self]
      rfl
  | succ left induction =>
      have onward := @induction (index + 1) (by omega)
      obtain ⟨item, here⟩ : ∃ item, program.entries[index]? = some item :=
        ⟨_, Array.getElem?_eq_getElem (show index < program.size by omega)⟩
      have outline := outline_of_entry here
      by_cases skipped : item.linked = .skipped
      · obtain ⟨phrase, linked⟩ := item
        subst skipped
        rw [Outline.seek_blank (by rw [strips.linked.outline_skipped here]; rfl),
          ← strips.rank_skipped here]
        exact onward depth
      · obtain ⟨there, next⟩ := strips.kept here skipped
        have count : short.size - program.rank index =
            short.size - program.rank (index + 1) + 1 := by
          have inside := lt_size_of_entry there
          omega
        rw [count]
        simp only [Outline.seek, outline, outline_of_entry there, ← next]
        cases item.phrase.keyword? with
        | none => exact onward depth
        | some keyword =>
            simp only [Option.join_some]
            split_ifs
            · rfl
            · exact onward _
            · cases depth with
              | zero => rfl
              | succ outer => exact onward outer
            · exact onward depth

theorem Strips.next? (strips : Strips short program) (targets : List Keyword)
    {start : Nat} {op : Op} (here : program.At start phrase op) :
    short.outline.next? (program.rank start) targets =
      (program.outline.next? start targets).map program.rank := by
  have inside : start < program.size := lt_size_of_entry here
  simp only [Outline.next?, size_outline, ← (strips.at here).2]
  exact strips.seek targets (by omega) 0

end Rank

end Program

def Frame.renumber (place : Nat → Nat) : Frame → Frame
  | .loop returnTo slot => .loop (place returnTo) slot
  | .chain resolved => .chain resolved

namespace Stack

variable (place : Nat → Nat) (stack : Stack) (frame : Frame)

def renumber : Stack where
  frames := stack.frames.map (Frame.renumber place)
  depth := stack.depth
  depth_eq := by simp [stack.depth_eq]

@[simp] theorem renumber_empty : Stack.empty.renumber place = .empty := rfl

@[simp] theorem renumber_push :
    (stack.push frame).renumber place = (stack.renumber place).push (frame.renumber place) := rfl

@[simp] theorem renumber_pop : stack.pop.renumber place = (stack.renumber place).pop := by
  ext1
  simp [renumber]

@[simp] theorem top?_renumber :
    (stack.renumber place).top? = stack.top?.map (Frame.renumber place) := by
  simp [top?, renumber]

@[simp] theorem renumber_replaceTop :
    (stack.replaceTop frame).renumber place =
      (stack.renumber place).replaceTop (frame.renumber place) := by
  have same : (stack.renumber place).isEmpty = stack.isEmpty := by
    simp [isEmpty, renumber]
  unfold replaceTop
  rw [same]
  split <;> simp

end Stack

def State.renumber (place : Nat → Nat) (state : State) : State :=
  { state with frames := state.frames.renumber place, pc := place state.pc }

def Step.renumber (place : Nat → Nat) : Step → Step
  | .skipped after => .skipped (after.renumber place)
  | .ran after => .ran (after.renumber place)
  | .failed fault left => .failed fault (left.renumber place)

namespace Program

section Steps

variable {short program : Program} {state : State} {phrase : Phrase}

section Next

variable {place : Nat → Nat} (next : place (state.pc + 1) = place state.pc + 1)
include next

theorem renumber_settle (phrase : Phrase) (slot : Slot) (value? : Option Int) :
    (state.renumber place).settle phrase slot value? =
      (state.settle phrase slot value?).renumber place := by
  cases value? <;> simp [State.settle, Step.renumber, State.renumber, next]

theorem renumber_leave : (state.renumber place).leave = state.leave.renumber place := by
  simp [State.leave, Step.renumber, State.renumber, next]

theorem renumber_takeBranch :
    (state.renumber place).takeBranch = state.takeBranch.renumber place := by
  simp [State.takeBranch, Step.renumber, State.renumber, Frame.renumber, next]

end Next

theorem renumber_enter (place : Nat → Nat) (frame : Frame) (address : Nat) :
    (state.renumber place).enter phrase (frame.renumber place) (place address) =
      (state.enter phrase frame address).renumber place := by
  have same : ((state.renumber place).frames.push (frame.renumber place)).overfull =
      (state.frames.push frame).overfull := rfl
  simp only [State.enter, same]
  split <;> rfl

theorem Strips.jump (strips : Strips short program) {op : Op}
    (here : program.At state.pc phrase op) (targets : List Keyword) {goOn goOnShort : Nat → Step}
    (onward : ∀ address, goOnShort (program.rank address) = (goOn address).renumber program.rank) :
    short.jump (state.renumber program.rank) phrase targets goOnShort =
      (program.jump state phrase targets goOn).renumber program.rank := by
  have found := strips.next? targets here
  simp only [Program.jump]
  rw [show (state.renumber program.rank).pc = program.rank state.pc from rfl, found]
  cases program.outline.next? state.pc targets with
  | none => rfl
  | some address => exact onward address

theorem Strips.obey (strips : Strips short program) (rooted : program.AllRooted state.frames)
    {op : Op} (here : program.At state.pc phrase op) :
    short.obey (state.renumber program.rank) phrase op =
      (program.obey state phrase op).renumber program.rank := by
  have next := (strips.at here).2
  have top : (state.renumber program.rank).frames.top? =
      state.frames.top?.map (Frame.renumber program.rank) := Stack.top?_renumber _ _
  have fetch : (state.renumber program.rank).vars.fetch = state.vars.fetch := rfl
  cases op with
  | clear slot => exact renumber_settle next phrase slot (some 0)
  | incr slot => exact renumber_settle next phrase slot _
  | decr slot => exact renumber_settle next phrase slot _
  | whileNonzero slot =>
      simp only [Program.obey, ← renumber_enter, Frame.renumber, next]
      rfl
  | endWhile =>
      simp only [Program.obey, top, fetch]
      rcases top_cases state.frames with ⟨returnTo, slot, loop⟩ | ⟨resolved, chain⟩ | none
      · -- The loop goes on after its `while`, which is one of the kept phrases.
        obtain ⟨_, opened⟩ := rooted.top loop
        simp only [loop, Option.map_some, Frame.renumber]
        split
        · exact renumber_leave next
        · simp [State.stepTo, Step.renumber, State.renumber, (strips.at opened).2]
      · simp only [chain, Option.map_some, Frame.renumber, Step.renumber]
      · simp only [none, Option.map_none, Step.renumber]
  | ifNonzero slot =>
      simp only [Program.obey, fetch]
      split
      · exact strips.jump here _ fun address => renumber_enter _ (.chain false) address
      · rw [← renumber_enter, next]
        rfl
  | elifNonzero slot =>
      simp only [Program.obey, top, fetch]
      rcases top_cases state.frames with ⟨returnTo, slot, loop⟩ | ⟨resolved, chain⟩ | none
      · simp only [loop, Option.map_some, Frame.renumber, Step.renumber]
      · simp only [chain, Option.map_some, Frame.renumber]
        split
        · exact strips.jump here _ fun address => rfl
        · exact renumber_takeBranch next
      · simp only [none, Option.map_none, Step.renumber]
  | elseBranch =>
      simp only [Program.obey, top]
      rcases top_cases state.frames with ⟨returnTo, slot, loop⟩ | ⟨resolved, chain⟩ | none
      · simp only [loop, Option.map_some, Frame.renumber, Step.renumber]
      · simp only [chain, Option.map_some, Frame.renumber]
        split
        · exact strips.jump here _ fun address => rfl
        · exact renumber_takeBranch next
      · simp only [none, Option.map_none, Step.renumber]
  | endIf =>
      simp only [Program.obey, top]
      rcases top_cases state.frames with ⟨returnTo, slot, loop⟩ | ⟨resolved, chain⟩ | none
      · simp only [loop, Option.map_some, Frame.renumber, Step.renumber]
      · simp only [chain, Option.map_some, Frame.renumber]
        exact renumber_leave next
      · simp only [none, Option.map_none, Step.renumber]

theorem Strips.step (strips : Strips short program) (rooted : program.AllRooted state.frames)
    {item : Entry} (here : program.entries[state.pc]? = some item)
    (kept : item.linked ≠ .skipped) :
    short.step (state.renumber program.rank) =
      (program.step state).renumber program.rank := by
  obtain ⟨phrase, linked⟩ := item
  have there : short.entries[(state.renumber program.rank).pc]? = some ⟨phrase, linked⟩ :=
    (strips.kept here kept).1
  simp only [Program.step, here, there]
  cases linked with
  | skipped => exact absurd rfl kept
  | op op => exact strips.obey rooted here
  | broken fault => rfl

end Steps

end Program

end Abacus
