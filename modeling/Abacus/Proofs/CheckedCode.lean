import Abacus.Proofs.CheckedRuns
import Abacus.Proofs.CodeLayout
import Abacus.Proofs.PlaceReading

/-!
Compilation that looks at every index. Here offsets, statements and phrases are found by their
addresses, sums of offsets have to fit their words, and the code has to end where the layout says;
whatever does not has no answer. Main statement: no program, broken or not, makes a run or its
compilation reach outside.
-/

namespace Abacus

namespace Bytecode

open Checked

namespace Checked

def sum32 (left right : Nat) : Checked Nat :=
  if left + right ≤ codeLimit then pure (left + right) else outside

theorem item_eq {α : Type} {items : List α} {place : Nat} {found : α}
    (here : items[place]? = some found) : item items place = pure found := by
  simp [item, here]

theorem ofExcept_ok {α : Type} (value : α) : Checked.ofExcept (.ok value) = pure value := rfl

theorem sum32_eq {left right : Nat} (fits : left + right ≤ codeLimit) :
    sum32 left right = pure (left + right) := if_pos fits

end Checked

namespace Layout

def entryPointInside (layout : Layout) (program : Program) (address : Nat) : Checked Nat := do
  let entry ← item program.entries.toList address
  let offset ← item layout.offsets.toList address
  match entry.linked.op? with
  | some (.elifNonzero _) | some .elseBranch => sum32 offset Record.width
  | _ => return offset

/-- Lowers the statement at an address, whose phrase is at hand for the journal and for faults. -/
def lowerInside (layout : Layout) (program : Program) (address : Nat) (frames : Stack) (op : Op) :
    Checked (List Record × Stack) := do
  let here ← item layout.offsets.toList address
  let phrase := (← item program.entries.toList address).phrase
  match op with
  | .clear slot => return ([.clear slot], frames)
  | .incr slot => return ([.inc slot], frames)
  | .decr slot => return ([.dec slot], frames)
  | .whileNonzero slot => do
    let frames ← Checked.ofExcept (openBlock phrase (.loop address slot) frames)
    return ([], frames)
  | .endWhile =>
    match frames.top? with
    | some (.loop returnTo slot) => do
      let target ← item layout.offsets.toList returnTo
      return ([.goto slot target.toUInt32], frames.pop)
    | _ => Checked.ofExcept (.error (phrase.fault .endWithoutWhile .none))
  | .ifNonzero slot => do
    let frames ← Checked.ofExcept (openBlock phrase (.chain false) frames)
    let always ← Checked.ofExcept (layout.alwaysSlot phrase)
    let next ← layout.entryPointInside program
      (← Checked.ofExcept (findNext program phrase address Keyword.branchEnds))
    let body ← sum32 here (2 * Record.width)
    return ([.goto slot body.toUInt32, .goto always next.toUInt32], frames)
  | .elifNonzero slot => do
    Checked.ofExcept (expectChain phrase frames)
    let always ← Checked.ofExcept (layout.alwaysSlot phrase)
    let chainEnd ← item layout.offsets.toList
      (← Checked.ofExcept (findNext program phrase address Keyword.chainEnds))
    let next ← layout.entryPointInside program
      (← Checked.ofExcept (findNext program phrase address Keyword.branchEnds))
    let body ← sum32 here (3 * Record.width)
    return ([.goto always chainEnd.toUInt32, .goto slot body.toUInt32,
      .goto always next.toUInt32], frames)
  | .elseBranch => do
    Checked.ofExcept (expectChain phrase frames)
    let always ← Checked.ofExcept (layout.alwaysSlot phrase)
    let chainEnd ← item layout.offsets.toList
      (← Checked.ofExcept (findNext program phrase address Keyword.chainEnds))
    return ([.goto always chainEnd.toUInt32], frames)
  | .endIf =>
    match frames.top? with
    | some (.chain _) => return ([], frames.pop)
    | _ => Checked.ofExcept (.error (phrase.fault .elseWithoutIf .endifWithoutIf))

/-- Lowers the `left` phrases from `address` on; `code` and `frames` are those before. -/
def lowerFromInside (layout : Layout) (program : Program) :
    (left address : Nat) → (code : List Record) → (frames : Stack) → Checked (List Record)
  | 0, _, code, _ => return code
  | left + 1, address, code, frames => do
    match (← item program.entries.toList address).linked.op? with
    | none => layout.lowerFromInside program left (address + 1) code frames
    | some op =>
      let (records, frames) ← layout.lowerInside program address frames op
      layout.lowerFromInside program left (address + 1) (code ++ records) frames

end Layout

end Bytecode

namespace Program

open Bytecode Checked

def compileInside (program : Program) : Checked Container :=
  match Layout.ofProgram program with
  | .error fault => Checked.ofExcept (.error fault)
  | .ok layout => do
    let code ← layout.lowerFromInside program program.size 0 layout.prologue .empty
    if code.length * Record.width ≠ (← item layout.offsets.toList program.size) then outside
    else
      let varCount := program.slots.size + if layout.always?.isSome then 1 else 0
      if varCount < UInt16.size then
        Checked.ofExcept (Container.make varCount.toUInt16 code program.symbols)
      else Checked.ofExcept (.error { kind := .overflow, detail := .tooManyVariables })

end Program

namespace Bytecode

open Checked

def Draft.outcome (draft : Draft) : Except Fault (List Record) :=
  match draft.fault? with
  | some fault => .error fault
  | none => .ok draft.records

namespace Layout

variable {layout : Layout} {program : Program}

section Laid

variable (laid : ofProgram program = .ok layout)
include laid

theorem item_offsets {address : Nat} (inside : address ≤ program.size) :
    item layout.offsets.toList address = pure (layout.offset address) := by
  obtain ⟨_, _, _, rfl⟩ := ofProgram_eq_ok_iff.1 laid
  have count := (foldl_place program.entries.toList (prologueLength program.branches)).2.1
  rw [Array.length_toList, Array.foldl_toList] at count
  have bounded : address < (natural program).offsets.size := by
    simp only [natural, Array.size_push, count]
    exact Nat.lt_succ_of_le inside
  apply item_eq
  rw [Array.getElem?_toList, Array.getElem?_eq_getElem bounded]
  simp [offset, Array.getD_eq_getD_getElem?, bounded]

theorem offset_add_le {address : Nat} {phrase : Phrase} {op : Op}
    (here : program.At address phrase op) : layout.offset address + op.codeLength ≤ codeLimit := by
  obtain ⟨_, _, fits, rfl⟩ := ofProgram_eq_ok_iff.1 laid
  have inside : address < program.size := Program.lt_size_of_entry here
  have next : program.codeSpan (address + 1) = program.codeSpan address + op.codeLength :=
    Program.codeSpan_succ here
  have bounded : program.codeSpan (address + 1) ≤ program.codeSpan program.size :=
    program.codeSpan_mono inside
  rw [offset_natural (Nat.le_of_lt inside)]
  omega

theorem entryPointInside_eq {address : Nat} (inside : address < program.size) :
    layout.entryPointInside program address = pure (layout.entryPoint program address) := by
  obtain ⟨⟨phrase, result⟩, here⟩ : ∃ entry, program.entries[address]? = some entry :=
    ⟨_, Array.getElem?_eq_getElem inside⟩
  have found : program.linkedAt address = result := by simp [Program.linkedAt, here]
  have entry : item program.entries.toList address = pure ⟨phrase, result⟩ :=
    item_eq (by rw [Array.getElem?_toList, here])
  rw [entryPointInside, entry, pure_bind, item_offsets laid (Nat.le_of_lt inside), pure_bind,
    entryPoint, found]
  cases result with
  | skipped => rfl
  | broken fault => rfl
  | op op =>
      have fits := offset_add_le laid here
      cases op with
      | elifNonzero slot =>
          simp only [Statement.codeLength] at fits
          exact sum32_eq (by omega)
      | elseBranch => exact sum32_eq fits
      | _ => rfl

/-- A statement reaches only offsets of the layout and phrases of the program. -/
theorem lowerInside_eq {address : Nat} {phrase : Phrase} {op : Op} {frames : Stack}
    (here : program.At address phrase op)
    (rooted : program.AllRooted frames) :
    layout.lowerInside program address frames op =
      Checked.ofExcept (layout.lower program address phrase frames op) := by
  have bounded : address < program.size := Program.lt_size_of_entry here
  have entry : item program.entries.toList address = pure ⟨phrase, .op op⟩ :=
    item_eq (by rw [Array.getElem?_toList]; exact here)
  have fits := offset_add_le laid here
  have offset : ∀ {targets : List Keyword} {found : Nat},
      findNext program phrase address targets = .ok found →
      item layout.offsets.toList found = pure (layout.offset found) :=
    fun sought => item_offsets laid (Nat.le_of_lt (Program.next?_lt (findNext_eq_ok_iff.1 sought)))
  have entryPoint : ∀ {targets : List Keyword} {found : Nat},
      findNext program phrase address targets = .ok found →
      layout.entryPointInside program found = pure (layout.entryPoint program found) :=
    fun sought => entryPointInside_eq laid (Program.next?_lt (findNext_eq_ok_iff.1 sought))
  rw [lowerInside, item_offsets laid (Nat.le_of_lt bounded), pure_bind, entry, pure_bind]
  cases op with
  | clear slot => rfl
  | incr slot => rfl
  | decr slot => rfl
  | whileNonzero slot =>
      simp only [lower]
      cases openBlock phrase (.loop address slot) frames <;> rfl
  | endWhile =>
      rcases Program.top_cases frames with ⟨returnTo, slot, top⟩ | ⟨resolved, top⟩ | top
      · obtain ⟨_, loop⟩ := rooted.top top
        have earlier : returnTo ≤ program.size := Nat.le_of_lt (Program.lt_size_of_entry loop)
        simp only [lower, top, item_offsets laid earlier, pure_bind]
        rfl
      · simp only [lower, top]
      · simp only [lower, top]
  | ifNonzero slot =>
      have body : layout.offset address + 2 * Record.width ≤ codeLimit := fits
      simp only [lower]
      cases openBlock phrase (.chain false) frames with
      | error fault => rfl
      | ok opened =>
          cases layout.alwaysSlot phrase with
          | error fault => rfl
          | ok always =>
              cases sought : findNext program phrase address Keyword.branchEnds with
              | error fault => rfl
              | ok next =>
                  simp only [ofExcept_ok, pure_bind, entryPoint sought, sum32_eq body]
                  rfl
  | elifNonzero slot =>
      have body : layout.offset address + 3 * Record.width ≤ codeLimit := fits
      simp only [lower]
      cases expectChain phrase frames with
      | error fault => rfl
      | ok expected =>
          cases layout.alwaysSlot phrase with
          | error fault => rfl
          | ok always =>
              cases last : findNext program phrase address Keyword.chainEnds with
              | error fault => rfl
              | ok chainEnd =>
                  cases sought : findNext program phrase address Keyword.branchEnds with
                  | error fault =>
                      simp only [ofExcept_ok, pure_bind, offset last]
                      rfl
                  | ok next =>
                      simp only [ofExcept_ok, pure_bind, offset last, entryPoint sought,
                        sum32_eq body]
                      rfl
  | elseBranch =>
      simp only [lower]
      cases expectChain phrase frames with
      | error fault => rfl
      | ok expected =>
          cases layout.alwaysSlot phrase with
          | error fault => rfl
          | ok always =>
              cases last : findNext program phrase address Keyword.chainEnds with
              | error fault => rfl
              | ok chainEnd =>
                  simp only [ofExcept_ok, pure_bind, offset last]
                  rfl
  | endIf =>
      rcases Program.top_cases frames with ⟨returnTo, slot, top⟩ | ⟨resolved, top⟩ | top
      · simp only [lower, top]
      · simp only [lower, top]
        rfl
      · simp only [lower, top]

theorem lowerFromInside_eq {left address : Nat} {draft : Draft}
    (total : address + left = program.size) (sound : draft.fault? = none)
    (rooted : program.AllRooted draft.frames) :
    layout.lowerFromInside program left address draft.records draft.frames =
      Checked.ofExcept
        (layout.lowerFrom program (program.entries.toList.drop address) address draft).outcome := by
  induction left generalizing address draft with
  | zero =>
      have past : program.entries.toList.length ≤ address := by
        rw [Array.length_toList]
        exact Nat.le_of_eq total.symm
      rw [List.drop_eq_nil_of_le past]
      simp only [lowerFrom, lowerFromInside, Draft.outcome, sound]
      rfl
  | succ left induction =>
      have bounded : address < program.entries.toList.length := by
        rw [Array.length_toList]
        simp only [Program.size] at total
        omega
      have onward : address + 1 + left = program.size := by omega
      have here : program.entries.toList[address]? = some program.entries.toList[address] :=
        List.getElem?_eq_getElem bounded
      rw [List.drop_eq_getElem_cons bounded, lowerFromInside, item_eq here, pure_bind, lowerFrom]
      generalize program.entries.toList[address] = entry at here
      rw [Array.getElem?_toList] at here
      obtain ⟨phrase, result⟩ := entry
      cases result with
      | skipped => exact induction onward sound rooted
      | broken fault => exact induction onward sound rooted
      | op op =>
          simp only [Linked.op?]
          rw [lowerInside_eq laid here rooted]
          cases lowered : layout.lower program address phrase draft.frames op with
          | error fault => rfl
          | ok outcome =>
              obtain ⟨records, after⟩ := outcome
              have added : (Draft.records
                  { emissions := emit draft.emissions (some phrase) records, frames := after }) =
                  draft.records ++ records := records_emit _ _ _
              rw [ofExcept_ok, pure_bind]
              dsimp only
              rw [← added]
              exact induction onward rfl (rooted.lower here lowered)

end Laid

end Layout

end Bytecode

namespace Program

open Bytecode Checked

/-- Compilation reaches no index out of range, whatever the program. -/
theorem compileInside_eq (program : Program) :
    program.compileInside = Checked.ofExcept program.compile := by
  unfold compileInside compile
  cases laid : Layout.ofProgram program with
  | error fault => rfl
  | ok layout =>
      have records : (Draft.records { emissions := Layout.emit #[] none layout.prologue }) =
          layout.prologue := by simp [Draft.records, Layout.records_emit]
      have lowered : layout.lowerFromInside program program.size 0 layout.prologue .empty =
          Checked.ofExcept (layout.draft program).outcome := by
        rw [← records]
        exact Layout.lowerFromInside_eq laid (Nat.zero_add _) rfl (allRooted_empty program)
      dsimp only
      rw [lowered, Layout.item_offsets laid (Nat.le_refl _)]
      cases met : (layout.draft program).fault? with
      | some fault =>
          simp only [Draft.outcome, met]
          rfl
      | none =>
          have compiles : layout.Compiles program := ⟨laid, met⟩
          have ends : (layout.draft program).records.length * Record.width =
              layout.offset program.size := by
            rw [compiles.offset_eq (Nat.le_refl _), Layout.codeBefore, Layout.draftBefore_size]
          simp only [Draft.outcome, met, ofExcept_ok, pure_bind]
          rw [if_neg (not_not.2 ends), apply_ite Checked.ofExcept]
          rfl

/-- No program can make the interpreter or the compiler reach outside of the variables, the
phrases, the statements or the offsets, whatever calls are made. -/
theorem nothing_out_of_range (phrases : Array Phrase) :
    (∀ state, (ofPhrases phrases).Reachable state →
      state.pc ≤ (ofPhrases phrases).size ∧
        (∀ cycles, (ofPhrases phrases).executeInside cycles state =
          some ((ofPhrases phrases).execute cycles state)) ∧
        ∀ rounds, (ofPhrases phrases).runInside rounds state =
          some ((ofPhrases phrases).run? rounds state)) ∧
      (ofPhrases phrases).compileInside = Checked.ofExcept (ofPhrases phrases).compile := by
  have linked := wellLinked_ofPhrases phrases
  refine ⟨?_, compileInside_eq _⟩
  intro state reachable
  have inside := inside_of_reachable reachable
  exact ⟨inside.pc_le, fun cycles => executeInside_eq linked cycles inside,
    fun rounds => runInside_eq linked rounds inside⟩

def tangle : Array Phrase :=
  #["while x", "incr y", "if y", "end", "elif z", "frob"].map (Phrase.mk 1)

theorem nothing_out_of_range_tangle :
    ∃ state, (ofPhrases tangle).Reachable state ∧ state.frames.frames.length = 2 ∧
      (∀ cycles, (ofPhrases tangle).executeInside cycles state.reset =
        some ((ofPhrases tangle).execute cycles state.reset)) ∧
      (ofPhrases tangle).compileInside = Checked.ofExcept (ofPhrases tangle).compile := by
  have reachable : (ofPhrases tangle).Reachable
      ((ofPhrases tangle).execute 9 (.start (ofPhrases tangle))).2 := .execute 9 .start
  obtain ⟨runs, compiles⟩ := nothing_out_of_range tangle
  exact ⟨_, reachable, by decide +kernel, (runs _ reachable.reset).2.1, compiles⟩

end Program

end Abacus
