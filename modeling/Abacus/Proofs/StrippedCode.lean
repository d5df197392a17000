import Mathlib.Data.List.Basic
import Abacus.Proofs.CodeLayout
import Abacus.Proofs.StrippedRuns

/-!
The code of a program without its skipped phrases. A skipped phrase takes no room in the code, so
each kept one has its old offset, and the statements are lowered to the same records. Main
statement: programs that differ only in skipped phrases cannot be told apart, neither by what they
compile to nor by their runs.
-/

namespace Abacus

open Bytecode Layout

namespace Program

variable {short program : Program} {address : Nat} {phrase : Phrase} {op : Op} {frames : Stack}

section Layouts

variable (strips : Strips short program)
include strips

theorem Strips.linked_of_dropped {item : Entry} (member : item ∈ program.entries.toList)
    (dropped : item.isKept = false) : item.linked = .skipped := by
  by_contra kept
  rw [(strips.linked.faithful item (Array.mem_toList_iff.1 member)).isKept_iff.2 kept] at dropped
  cases dropped

theorem Strips.rank_le (address : Nat) : program.rank address ≤ short.size := by
  rw [← strips.rank_past (Nat.le_max_left program.size address)]
  exact (List.take_sublist_take_left (Nat.le_max_right _ _)).countP_le

theorem Strips.firstFault? : short.firstFault? = program.firstFault? := by
  simp only [Program.firstFault?, ← Array.findSome?_toList, ← List.head?_filterMap, strips.entries,
    List.filterMap_filter]
  congr 1
  apply List.filterMap_congr
  intro item member
  cases kept : item.isKept with
  | true => rfl
  | false => simp [strips.linked_of_dropped member kept, Linked.fault?]

theorem Strips.branches : short.branches = program.branches := by
  simp only [Program.branches, ← Array.any_toList, strips.entries, List.any_filter]
  rw [Bool.eq_iff_iff, List.any_eq_true, List.any_eq_true]
  refine exists_congr fun item => and_congr_right fun member => ?_
  cases kept : item.isKept with
  | true => simp
  | false => simp [strips.linked_of_dropped member kept, Linked.branches, Linked.op?]

theorem Strips.codeSpan (inside : address ≤ program.size) :
    short.codeSpan (program.rank address) = program.codeSpan address := by
  induction address with
  | zero => rfl
  | succ address induction =>
      have before := induction (Nat.le_of_succ_le inside)
      have here : program.entries[address]? = some program.entries[address] :=
        Array.getElem?_eq_getElem inside
      generalize program.entries[address] = item at here
      obtain ⟨phrase, linked⟩ := item
      rw [codeSpan_succ here]
      by_cases skipped : linked = .skipped
      · subst skipped
        rw [strips.rank_skipped here]
        exact before
      · obtain ⟨there, next⟩ := strips.kept here skipped
        rw [next, codeSpan_succ there, before]

theorem Strips.offset (inside : address ≤ program.size) :
    (natural short).offset (program.rank address) = (natural program).offset address := by
  rw [offset_natural (strips.rank_le address), offset_natural inside, strips.branches,
    strips.codeSpan inside]

theorem Strips.always? : (natural short).always? = (natural program).always? := by
  simp only [natural, strips.branches, strips.slots]

theorem Strips.found {targets : List Keyword} {start found : Nat}
    (sought : program.outline.next? start targets = some found) :
    found ≤ program.size ∧
      (natural short).entryPoint short (program.rank found) =
        (natural program).entryPoint program found := by
  have inside := next?_lt sought
  obtain ⟨_, _, keyword, _, spelled⟩ := Outline.next?_found sought
  have here : program.entries[found]? = some program.entries[found] :=
    Array.getElem?_eq_getElem inside
  generalize program.entries[found] = item at here
  obtain ⟨phrase, linked⟩ := item
  have kept : linked ≠ .skipped := by
    rintro rfl
    rw [strips.linked.outline_skipped here] at spelled
    cases spelled
  have same : short.linkedAt (program.rank found) = program.linkedAt found := by
    simp only [linkedAt, here, (strips.kept here kept).1]
  have offset := strips.offset (Nat.le_of_lt inside)
  exact ⟨Nat.le_of_lt inside, by rw [entryPoint, entryPoint, same, offset]⟩

end Layouts

section Lowering

theorem openBlock_renumber (phrase : Phrase) (frames : Stack) (place : Nat → Nat) (frame : Frame) :
    openBlock phrase (frame.renumber place) (frames.renumber place) =
      (openBlock phrase frame frames).map (Stack.renumber place) := by
  have same : ((frames.renumber place).push (frame.renumber place)).overfull =
      (frames.push frame).overfull := rfl
  simp only [openBlock, same]
  split <;> rfl

theorem expectChain_renumber (place : Nat → Nat) :
    expectChain phrase (frames.renumber place) = expectChain phrase frames := by
  rcases top_cases frames with ⟨_, _, top⟩ | ⟨_, top⟩ | top <;>
    simp [expectChain, top, Frame.renumber]

variable (strips : Strips short program)
include strips

theorem Strips.alwaysSlot :
    (natural short).alwaysSlot phrase = (natural program).alwaysSlot phrase := by
  simp only [Layout.alwaysSlot, strips.always?]

theorem Strips.findNext (here : program.At address phrase op) (targets : List Keyword) :
    Layout.findNext short phrase (program.rank address) targets =
      (Layout.findNext program phrase address targets).map program.rank := by
  rw [Layout.findNext, Layout.findNext, strips.next? targets here]
  cases program.outline.next? address targets <;> rfl

theorem Strips.lower (here : program.At address phrase op) (rooted : program.AllRooted frames) :
    (natural short).lower short (program.rank address) phrase (frames.renumber program.rank) op =
      ((natural program).lower program address phrase frames op).map
        (Prod.map id (Stack.renumber program.rank)) := by
  have inside : address ≤ program.size := Nat.le_of_lt (lt_size_of_entry here)
  cases op with
  | clear slot => rfl
  | incr slot => rfl
  | decr slot => rfl
  | whileNonzero slot =>
      have opened := openBlock_renumber phrase frames program.rank (.loop address slot)
      simp only [Frame.renumber] at opened
      simp only [Layout.lower, opened]
      cases openBlock phrase (.loop address slot) frames <;> rfl
  | endWhile =>
      rcases top_cases frames with ⟨returnTo, slot, top⟩ | ⟨_, top⟩ | top
      · obtain ⟨_, opened⟩ := rooted.top top
        have offset := strips.offset (Nat.le_of_lt (lt_size_of_entry opened))
        simp [Layout.lower, top, Frame.renumber, offset, Except.map]
      · simp [Layout.lower, top, Frame.renumber, Except.map]
      · simp [Layout.lower, top, Except.map]
  | ifNonzero slot =>
      have opened := openBlock_renumber phrase frames program.rank (.chain false)
      simp only [Frame.renumber] at opened
      simp only [Layout.lower, opened, strips.alwaysSlot, strips.findNext here,
        strips.offset inside]
      cases openBlock phrase (.chain false) frames with
      | error fault => rfl
      | ok pushed =>
          cases (natural program).alwaysSlot phrase with
          | error fault => rfl
          | ok always =>
              cases sought : Layout.findNext program phrase address Keyword.branchEnds with
              | error fault => rfl
              | ok next =>
                  have found := strips.found (findNext_eq_ok_iff.1 sought)
                  simp only [Except.map, bind, Except.bind, found.2]
                  rfl
  | elifNonzero slot =>
      simp only [Layout.lower, expectChain_renumber, strips.alwaysSlot, strips.findNext here,
        strips.offset inside]
      cases expectChain phrase frames with
      | error fault => rfl
      | ok _ =>
          cases (natural program).alwaysSlot phrase with
          | error fault => rfl
          | ok always =>
              cases last : Layout.findNext program phrase address Keyword.chainEnds with
              | error fault => rfl
              | ok chainEnd =>
                  cases sought : Layout.findNext program phrase address Keyword.branchEnds with
                  | error fault => rfl
                  | ok next =>
                      have ended := strips.found (findNext_eq_ok_iff.1 last)
                      have found := strips.found (findNext_eq_ok_iff.1 sought)
                      simp only [Except.map, bind, Except.bind, found.2, strips.offset ended.1]
                      rfl
  | elseBranch =>
      simp only [Layout.lower, expectChain_renumber, strips.alwaysSlot, strips.findNext here]
      cases expectChain phrase frames with
      | error fault => rfl
      | ok _ =>
          cases (natural program).alwaysSlot phrase with
          | error fault => rfl
          | ok always =>
              cases last : Layout.findNext program phrase address Keyword.chainEnds with
              | error fault => rfl
              | ok chainEnd =>
                  have ended := strips.found (findNext_eq_ok_iff.1 last)
                  simp only [Except.map, bind, Except.bind, strips.offset ended.1]
                  rfl
  | endIf =>
      rcases top_cases frames with ⟨_, _, top⟩ | ⟨_, top⟩ | top <;>
        simp [Layout.lower, top, Frame.renumber, Except.map]

end Lowering

theorem Strips.lowerFrom (strips : Strips short program) {rest : List Entry}
    (suffix : program.entries.toList.drop address = rest) (draft : Draft)
    (rooted : program.AllRooted draft.frames) :
    (natural short).lowerFrom short (rest.filter Entry.isKept) (program.rank address)
        { draft with frames := draft.frames.renumber program.rank } =
      let drafted := (natural program).lowerFrom program rest address draft
      { drafted with frames := drafted.frames.renumber program.rank } := by
  induction rest generalizing address draft with
  | nil => rfl
  | cons item rest induction =>
      have here : program.entries[address]? = some item := by
        rw [← Array.getElem?_toList, ← List.head?_drop, suffix]
        rfl
      have next : program.entries.toList.drop (address + 1) = rest := by
        rw [← List.drop_drop, suffix]
        rfl
      obtain ⟨phrase, linked⟩ := item
      by_cases skipped : linked = .skipped
      · subst skipped
        have gone : ¬ Entry.isKept ⟨phrase, .skipped⟩ = true := by simp [strips.isKept_iff here]
        rw [List.filter_cons_of_neg gone, ← strips.rank_skipped here]
        exact induction next draft rooted
      · rw [List.filter_cons_of_pos ((strips.isKept_iff here).2 skipped)]
        have later := (strips.kept here skipped).2
        cases linked with
        | skipped => exact absurd rfl skipped
        | broken fault =>
            simp only [Layout.lowerFrom, Linked.op?, ← later]
            exact induction next draft rooted
        | op op =>
            simp only [Layout.lowerFrom, Linked.op?, strips.lower here rooted, ← later]
            cases lowered : (natural program).lower program address phrase draft.frames op with
            | error fault => rfl
            | ok result =>
                have opened : program.AllRooted result.2 := rooted.lower here lowered
                exact induction next
                  ⟨emit draft.emissions (some phrase) result.1, result.2, none⟩ opened

theorem Strips.draft (strips : Strips short program) :
    (natural short).draft short =
      { (natural program).draft program with
        frames := ((natural program).draft program).frames.renumber program.rank } := by
  have same : (natural short).prologue = (natural program).prologue := by
    simp only [prologue, strips.always?]
  simp only [Layout.draft, strips.entries, same]
  exact strips.lowerFrom List.drop_zero ⟨emit #[] none (natural program).prologue, .empty, none⟩
    (allRooted_empty program)

/-- Skipped phrases do not change what a program compiles to. -/
theorem Strips.compile (strips : Strips short program) : short.compile = program.compile := by
  have total : short.codeSpan short.size = program.codeSpan program.size := by
    rw [← strips.rank_past (Nat.le_refl program.size), strips.codeSpan (Nat.le_refl _)]
  have laid : ofProgram short = (ofProgram program).map fun _ => natural short := by
    simp only [ofProgram_eq, strips.firstFault?, strips.branches, strips.slots, total]
    cases program.firstFault? with
    | some fault => rfl
    | none =>
        dsimp only
        split_ifs <;> rfl
  simp only [Program.compile, laid]
  cases long : ofProgram program with
  | error fault => rfl
  | ok layout =>
      obtain rfl := (ofProgram_eq_ok_iff.1 long).2.2.2
      simp only [Except.map, strips.draft, strips.slots, strips.always?, symbols]

/-- Programs that differ only in skipped phrases have the same code or the same fault for want of
it, the same slots and the same end of their runs; and a traced run of the one shows what a traced
run of the other shows, however the cycles are divided into calls. -/
theorem skipped_phrases_have_no_effect {first second : Array Phrase}
    (same : first.filter (fun phrase => !phrase.isSkipped) =
      second.filter fun phrase => !phrase.isSkipped) :
    (ofPhrases first).compile = (ofPhrases second).compile ∧
      (ofPhrases first).slots = (ofPhrases second).slots ∧
      (∀ vars, (ofPhrases first).Returns vars ↔ (ofPhrases second).Returns vars) ∧
      (∀ fault vars,
        (ofPhrases first).FailsWith fault vars ↔ (ofPhrases second).FailsWith fault vars) ∧
      ((ofPhrases first).RunsForever ↔ (ofPhrases second).RunsForever) ∧
      ∀ cycles other, 0 < cycles → 0 < other → ∀ view,
        (∃ calls, (ofPhrases first).watch cycles calls
            ((State.start (ofPhrases first)).setTrace true) = view) ↔
          ∃ calls, (ofPhrases second).watch other calls
            ((State.start (ofPhrases second)).setTrace true) = view := by
  have one := strips_ofPhrases first
  have two := strips_ofPhrases second
  rw [same] at one
  refine ⟨one.compile.symm.trans two.compile, one.slots.symm.trans two.slots, ?_, ?_, ?_, ?_⟩
  · intro vars
    exact one.returns_iff.trans two.returns_iff.symm
  · intro fault vars
    exact one.failsWith_iff.trans two.failsWith_iff.symm
  · exact one.runsForever_iff.trans two.runsForever_iff.symm
  · intro cycles other budget budgetSecond view
    exact (one.watch_iff budget budgetSecond).trans (two.watch_iff budgetSecond budgetSecond).symm

def remarkedCountdown : Array Phrase :=
  #["# count down", "incr x", "while x", "", "if y", "# never", "incr y", "else", "decr x", "endif",
    "#", "end", ""].map (Phrase.mk 1)

theorem remarks_in_countdown_have_no_effect :
    countdown.filter (fun phrase => !phrase.isSkipped) =
        remarkedCountdown.filter (fun phrase => !phrase.isSkipped) ∧
      (ofPhrases remarkedCountdown).compile = (ofPhrases countdown).compile ∧
      (ofPhrases remarkedCountdown).Returns ⟨#[⟨"x", 0⟩, ⟨"y", 0⟩]⟩ := by
  have same : countdown.filter (fun phrase => !phrase.isSkipped) =
      remarkedCountdown.filter fun phrase => !phrase.isSkipped := by
    decide +kernel
  obtain ⟨compiled, -, returns, -⟩ := skipped_phrases_have_no_effect same
  exact ⟨same, compiled.symm, (returns _).1 returns_countdown⟩

end Program

end Abacus
