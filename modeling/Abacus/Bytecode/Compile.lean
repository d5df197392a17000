import Abacus.Bytecode.Layout
import Abacus.Stack

/-!
Compilation. Statements are lowered in order with a stack of the open blocks:

* `while x` is nothing and its `end` is GOTO x to the start of the body;
* `if x` is GOTO x to its body and a sure jump to the next branch;
* `elif x` is a sure jump out of the chain, for the branch before it, then as `if x`;
* `else` is a sure jump out of the chain, for the branch before it;
* `endif` is nothing.
-/

namespace Abacus

namespace Bytecode

/-- A record of the code and the phrase it comes from; the prologue comes from none. -/
structure Emission where
  record : Record
  origin? : Option Phrase
deriving DecidableEq

/-- Code under way. Once there is a fault nothing is added. -/
structure Draft where
  emissions : Array Emission := #[]
  frames : Stack := .empty
  fault? : Option Fault := none

namespace Layout

def openBlock (phrase : Phrase) (frame : Frame) (frames : Stack) : Except Fault Stack :=
  let frames := frames.push frame
  if frames.overfull then .error (Stack.overflow phrase.place) else .ok frames

/-- The slot that sure jumps test. -/
def alwaysSlot (layout : Layout) (phrase : Phrase) : Except Fault Slot :=
  match layout.always? with
  | some always => .ok always
  | none => .error (phrase.fault .internal .noAlwaysSlot)

def findNext (program : Program) (phrase : Phrase) (address : Nat) (targets : List Keyword) :
    Except Fault Nat :=
  match program.outline.next? address targets with
  | some found => .ok found
  | none => .error (phrase.fault .ifWithoutEndif .none)

def expectChain (phrase : Phrase) (frames : Stack) : Except Fault Unit :=
  match frames.top? with
  | some (.chain _) => .ok ()
  | _ => .error (phrase.fault .elseWithoutIf .none)

def lower (layout : Layout) (program : Program) (address : Nat) (phrase : Phrase)
    (frames : Stack) : Op → Except Fault (List Record × Stack)
  | .clear slot => .ok ([.clear slot], frames)
  | .incr slot => .ok ([.inc slot], frames)
  | .decr slot => .ok ([.dec slot], frames)
  | .whileNonzero slot => do
    let frames ← openBlock phrase (.loop address slot) frames
    return ([], frames)
  | .endWhile =>
    match frames.top? with
    | some (.loop returnTo slot) =>
      .ok ([.goto slot (layout.offset returnTo).toUInt32], frames.pop)
    | _ => .error (phrase.fault .endWithoutWhile .none)
  | .ifNonzero slot => do
    let frames ← openBlock phrase (.chain false) frames
    let always ← layout.alwaysSlot phrase
    let next ← findNext program phrase address Keyword.branchEnds
    return ([.goto slot (layout.offset address + 2 * Record.width).toUInt32,
      .goto always (layout.entryPoint program next).toUInt32], frames)
  | .elifNonzero slot => do
    expectChain phrase frames
    let always ← layout.alwaysSlot phrase
    let chainEnd ← findNext program phrase address Keyword.chainEnds
    let next ← findNext program phrase address Keyword.branchEnds
    return ([.goto always (layout.offset chainEnd).toUInt32,
      .goto slot (layout.offset address + 3 * Record.width).toUInt32,
      .goto always (layout.entryPoint program next).toUInt32], frames)
  | .elseBranch => do
    expectChain phrase frames
    let always ← layout.alwaysSlot phrase
    let chainEnd ← findNext program phrase address Keyword.chainEnds
    return ([.goto always (layout.offset chainEnd).toUInt32], frames)
  | .endIf =>
    match frames.top? with
    | some (.chain _) => .ok ([], frames.pop)
    | _ => .error (phrase.fault .elseWithoutIf .endifWithoutIf)

def emit (emissions : Array Emission) (origin? : Option Phrase) (records : List Record) :
    Array Emission :=
  records.foldl (fun emissions record => emissions.push ⟨record, origin?⟩) emissions

def lowerFrom (layout : Layout) (program : Program) :
    List Entry → (address : Nat) → Draft → Draft
  | [], _, draft => draft
  | entry :: rest, address, draft =>
    match entry.linked.op? with
    | none => layout.lowerFrom program rest (address + 1) draft
    | some op =>
      match layout.lower program address entry.phrase draft.frames op with
      | .ok (records, frames) =>
        layout.lowerFrom program rest (address + 1)
          { emissions := emit draft.emissions (some entry.phrase) records, frames }
      | .error fault => { draft with fault? := some fault }

def draft (layout : Layout) (program : Program) : Draft :=
  layout.lowerFrom program program.entries.toList 0
    { emissions := emit #[] none layout.prologue }

end Layout

end Bytecode

namespace Program

open Bytecode

def symbols (program : Program) : List (Slot × String) :=
  program.slots.names.toList.zipIdx.map fun name => (name.2.toUInt16, name.1)

def draft (program : Program) : Except Fault Draft :=
  match Layout.ofProgram program with
  | .ok layout => .ok (layout.draft program)
  | .error fault => .error fault

def compile (program : Program) : Except Fault Container :=
  match Layout.ofProgram program with
  | .error fault => .error fault
  | .ok layout =>
    let draft := layout.draft program
    match draft.fault? with
    | some fault => .error fault
    | none =>
      let varCount := program.slots.size + if layout.always?.isSome then 1 else 0
      if varCount < UInt16.size then
        Container.make varCount.toUInt16 (draft.emissions.toList.map Emission.record)
          program.symbols
      else .error { kind := .overflow, detail := .tooManyVariables }

end Program

end Abacus
