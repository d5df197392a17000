import Abacus.Bytecode.Compile

/-!
Lines count in reports only. Taking the lines out of phrases, faults and whole programs commutes
with everything between a row of phrases and its code. Main statement: a program whose lines are
taken out is linked and compiled to what the program itself is, with the lines taken out of the
faults.
-/

namespace Abacus

namespace Fault

def Place.unlined : Place → Place
  | .unknown => .unknown
  | .line _ => .line 0
  | .statement _ text => .statement 0 text

def unlined (fault : Fault) : Fault := { fault with place := fault.place.unlined }

end Fault

def Phrase.unlined (phrase : Phrase) : Phrase := { phrase with line := 0 }

def Linked.unlined : Linked → Linked
  | .skipped => .skipped
  | .op statement => .op statement
  | .broken fault => .broken fault.unlined

def Entry.unlined (entry : Entry) : Entry := ⟨entry.phrase.unlined, entry.linked.unlined⟩

/-- The program as if all of it stood on one line. -/
def Program.unlined (program : Program) : Program :=
  { entries := program.entries.map Entry.unlined, slots := program.slots }

@[simp] theorem Linked.op?_unlined (linked : Linked) : linked.unlined.op? = linked.op? := by
  cases linked <;> rfl

@[simp] theorem Linked.fault?_unlined (linked : Linked) :
    linked.unlined.fault? = linked.fault?.map Fault.unlined := by
  cases linked <;> rfl

@[simp] theorem Linked.codeLength_unlined (linked : Linked) :
    linked.unlined.codeLength = linked.codeLength := by
  unfold Linked.codeLength
  rw [Linked.op?_unlined]

@[simp] theorem Linked.branches_unlined (linked : Linked) :
    linked.unlined.branches = linked.branches := by
  unfold Linked.branches
  rw [Linked.op?_unlined]

theorem mapError_ok {α ε μ : Type} (f : ε → μ) (value : α) :
    (Except.ok value).mapError f = .ok value := rfl

theorem mapError_eq_ok_iff {α ε μ : Type} {outcome : Except ε α} {f : ε → μ} {value : α} :
    outcome.mapError f = .ok value ↔ outcome = .ok value := by
  cases outcome with
  | error fault =>
      constructor
      · intro same
        cases same
      · intro same
        cases same
  | ok given => rw [mapError_ok, Except.ok.injEq, Except.ok.injEq]

theorem mapError_bind {α β ε μ : Type} (first : Except ε α) (rest : α → Except ε β) (f : ε → μ) :
    (first >>= rest).mapError f = first.mapError f >>= fun value => (rest value).mapError f := by
  cases first <;> rfl

section Linking

theorem Phrase.parse_unlined (phrase : Phrase) :
    phrase.unlined.parse = phrase.parse.mapError Fault.unlined := by
  have skipped : phrase.unlined.isSkipped = phrase.isSkipped := rfl
  have words : phrase.unlined.words = phrase.words := rfl
  unfold Phrase.parse
  rw [skipped, words]
  dsimp only
  split
  · rfl
  · split
    · rfl
    · rename_i keyword _
      generalize (if keyword.takesOperand then 1 else 0) = expected
      split
      · rfl
      · split
        · rfl
        · split <;> rfl

theorem Phrase.link_unlined (phrase : Phrase) (slots : Slots) :
    phrase.unlined.link slots = ((phrase.link slots).1.unlined, (phrase.link slots).2) := by
  unfold Phrase.link
  rw [Phrase.parse_unlined]
  cases phrase.parse with
  | error fault => rfl
  | ok parsed =>
      cases parsed with
      | none => rfl
      | some statement =>
          rw [mapError_ok]
          dsimp only
          cases statement.link slots with
          | mk outcome after => cases outcome <;> rfl

namespace Program

def Linking.unlined (linking : Linking) : Linking :=
  ⟨linking.entries.map Entry.unlined, linking.slots⟩

theorem Linking.next_unlined (linking : Linking) (phrase : Phrase) :
    linking.unlined.next phrase.unlined = (linking.next phrase).unlined := by
  have linked := phrase.link_unlined linking.slots
  unfold Linking.next Linking.unlined
  dsimp only
  rw [linked, Array.map_push]
  rfl

theorem Linking.foldl_next_unlined (phrases : List Phrase) (linking : Linking) :
    (phrases.map Phrase.unlined).foldl Linking.next linking.unlined =
      (phrases.foldl Linking.next linking).unlined := by
  induction phrases generalizing linking with
  | nil => rfl
  | cons phrase phrases induction =>
      rw [List.map_cons, List.foldl_cons, List.foldl_cons, Linking.next_unlined, induction]

theorem ext_entries {left right : Program} (entries : left.entries = right.entries)
    (slots : left.slots = right.slots) : left = right := by
  obtain ⟨entries, slots, outline, outline_eq⟩ := left
  obtain ⟨others, table, rest, rest_eq⟩ := right
  subst entries slots outline_eq rest_eq
  rfl

theorem ofPhrases_unlined (phrases : Array Phrase) :
    ofPhrases (phrases.map Phrase.unlined) = (ofPhrases phrases).unlined := by
  have start : Linking.unlined {} = {} := by simp [Linking.unlined]
  have linked := Linking.foldl_next_unlined phrases.toList {}
  rw [start, ← Array.toList_map, Array.foldl_toList, Array.foldl_toList] at linked
  have entries := congrArg Linking.entries linked
  have slots := congrArg Linking.slots linked
  exact ext_entries entries slots

theorem slots_unlined (program : Program) : program.unlined.slots = program.slots := rfl

theorem outline_unlined (program : Program) : program.unlined.outline = program.outline := by
  rw [program.outline_eq, program.unlined.outline_eq]
  unfold Outline.ofPhrases Program.unlined
  simp only [Array.map_map]
  rfl

theorem linkedAt_unlined (program : Program) (address : Nat) :
    program.unlined.linkedAt address = (program.linkedAt address).unlined := by
  unfold linkedAt Program.unlined
  rw [Array.getElem?_map]
  cases program.entries[address]? <;> rfl

theorem firstFault?_unlined (program : Program) :
    program.unlined.firstFault? = program.firstFault?.map Fault.unlined := by
  unfold firstFault? Program.unlined
  simp only [← Array.findSome?_toList, Array.toList_map, List.findSome?_map]
  induction program.entries.toList with
  | nil => rfl
  | cons entry entries induction =>
      rw [List.findSome?_cons, List.findSome?_cons, induction, Function.comp_apply, Entry.unlined,
        Linked.fault?_unlined]
      cases entry.linked.fault? <;> rfl

end Program

end Linking

section Compiling

open Bytecode Layout

theorem Bytecode.Layout.place_unlined (offsets : Array Nat × Nat) (entry : Entry) :
    place offsets entry.unlined = place offsets entry := by
  simp [place, Entry.unlined]

theorem Bytecode.Layout.ofProgram_unlined (program : Program) :
    ofProgram program.unlined = (ofProgram program).mapError Fault.unlined := by
  have branches : (program.unlined.entries.any fun entry => entry.linked.branches) =
      program.entries.any fun entry => entry.linked.branches := by
    simp [Program.unlined, Entry.unlined, Function.comp_def]
  have placed : ∀ start : Array Nat × Nat,
      program.unlined.entries.foldl place start = program.entries.foldl place start := by
    intro start
    simp only [Program.unlined, Array.foldl_map, place_unlined]
  unfold ofProgram
  rw [program.firstFault?_unlined, branches, program.slots_unlined]
  simp only [placed]
  cases program.firstFault? with
  | some fault => rfl
  | none =>
      generalize (program.entries.any fun entry => entry.linked.branches) = branching
      dsimp only [Option.map_none]
      split
      · rfl
      · split <;> rfl

namespace Bytecode.Layout

variable (layout : Layout) (program : Program) (phrase : Phrase)

theorem entryPoint_unlined (address : Nat) :
    layout.entryPoint program.unlined address = layout.entryPoint program address := by
  unfold entryPoint
  rw [program.linkedAt_unlined, Linked.op?_unlined]

theorem openBlock_unlined (frame : Frame) (frames : Stack) :
    openBlock phrase.unlined frame frames =
      (openBlock phrase frame frames).mapError Fault.unlined := by
  unfold openBlock
  dsimp only
  split <;> rfl

theorem alwaysSlot_unlined :
    layout.alwaysSlot phrase.unlined = (layout.alwaysSlot phrase).mapError Fault.unlined := by
  unfold alwaysSlot
  split <;> rfl

theorem findNext_unlined (address : Nat) (targets : List Keyword) :
    findNext program.unlined phrase.unlined address targets =
      (findNext program phrase address targets).mapError Fault.unlined := by
  unfold findNext
  rw [program.outline_unlined]
  split <;> rfl

theorem expectChain_unlined (frames : Stack) :
    expectChain phrase.unlined frames = (expectChain phrase frames).mapError Fault.unlined := by
  unfold expectChain
  split <;> rfl

theorem lower_unlined (address : Nat) (frames : Stack) (op : Op) :
    layout.lower program.unlined address phrase.unlined frames op =
      (layout.lower program address phrase frames op).mapError Fault.unlined := by
  unfold lower
  cases op with
  | clear slot => rfl
  | incr slot => rfl
  | decr slot => rfl
  | whileNonzero slot =>
      simp only [openBlock_unlined, mapError_bind]
      rfl
  | endWhile =>
      dsimp only
      split <;> rfl
  | ifNonzero slot =>
      simp only [openBlock_unlined, alwaysSlot_unlined, findNext_unlined, entryPoint_unlined,
        mapError_bind]
      rfl
  | elifNonzero slot =>
      simp only [expectChain_unlined, alwaysSlot_unlined, findNext_unlined, entryPoint_unlined,
        mapError_bind]
      rfl
  | elseBranch =>
      simp only [expectChain_unlined, alwaysSlot_unlined, findNext_unlined, mapError_bind]
      rfl
  | endIf =>
      dsimp only
      split <;> rfl

end Bytecode.Layout

def Bytecode.Emission.unlined (emission : Emission) : Emission :=
  { emission with origin? := emission.origin?.map Phrase.unlined }

def Bytecode.Draft.unlined (draft : Draft) : Draft where
  emissions := draft.emissions.map Emission.unlined
  frames := draft.frames
  fault? := draft.fault?.map Fault.unlined

namespace Bytecode.Layout

theorem emit_unlined (emissions : Array Emission) (origin? : Option Phrase)
    (records : List Record) :
    emit (emissions.map Emission.unlined) (origin?.map Phrase.unlined) records =
      (emit emissions origin? records).map Emission.unlined := by
  unfold emit
  induction records generalizing emissions with
  | nil => rfl
  | cons record records induction =>
      have rest := induction (emissions.push ⟨record, origin?⟩)
      rw [Array.map_push] at rest
      exact rest

theorem lowerFrom_unlined (layout : Layout) (program : Program) (entries : List Entry)
    (address : Nat) (draft : Draft) :
    layout.lowerFrom program.unlined (entries.map Entry.unlined) address draft.unlined =
      (layout.lowerFrom program entries address draft).unlined := by
  induction entries generalizing address draft with
  | nil => rfl
  | cons entry entries induction =>
      have op : entry.unlined.linked.op? = entry.linked.op? := entry.linked.op?_unlined
      rw [List.map_cons, lowerFrom, lowerFrom, op]
      cases entry.linked.op? with
      | none => exact induction (address + 1) draft
      | some op =>
          have lowered := layout.lower_unlined program entry.phrase address draft.frames op
          dsimp only [Draft.unlined, Entry.unlined] at lowered ⊢
          rw [lowered]
          cases layout.lower program address entry.phrase draft.frames op with
          | error fault => rfl
          | ok result =>
              have rest := induction (address + 1)
                ⟨emit draft.emissions (some entry.phrase) result.1, result.2, none⟩
              dsimp only [Draft.unlined] at rest
              rw [← emit_unlined] at rest
              exact rest

theorem draft_unlined (layout : Layout) (program : Program) :
    layout.draft program.unlined = (layout.draft program).unlined := by
  have start : Draft.unlined { emissions := emit #[] none layout.prologue } =
      { emissions := emit #[] none layout.prologue } := by
    simp [Draft.unlined, ← emit_unlined]
  have lowered := layout.lowerFrom_unlined program program.entries.toList 0
    { emissions := emit #[] none layout.prologue }
  rw [start, ← Array.toList_map] at lowered
  exact lowered

end Bytecode.Layout

theorem Bytecode.Container.mapError_make (varCount : UInt16) (code : List Record)
    (symbols : List (Slot × String)) :
    (make varCount code symbols).mapError Fault.unlined = make varCount code symbols := by
  unfold make
  split <;> rfl

/-- Without its lines a program compiles to the same code, or is refused with the same fault, of
which the line is taken out. -/
theorem Program.compile_unlined (program : Program) :
    program.unlined.compile = program.compile.mapError Fault.unlined := by
  have symbols : program.unlined.symbols = program.symbols := rfl
  unfold Program.compile
  rw [ofProgram_unlined]
  cases ofProgram program with
  | error fault => rfl
  | ok layout =>
      rw [mapError_ok]
      dsimp only
      rw [layout.draft_unlined, symbols, Program.slots_unlined]
      dsimp only [Draft.unlined]
      cases (layout.draft program).fault? with
      | some fault => rfl
      | none =>
          have records : ((layout.draft program).emissions.map Emission.unlined).toList.map
              Emission.record = (layout.draft program).emissions.toList.map Emission.record := by
            simp only [Array.toList_map, List.map_map]
            rfl
          dsimp only [Option.map_none]
          rw [records]
          generalize program.slots.size + (if layout.always?.isSome then 1 else 0) = varCount
          split
          · exact (Container.mapError_make _ _ _).symm
          · rfl

end Compiling

end Abacus
