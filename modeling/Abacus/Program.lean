import Abacus.Outline
import Abacus.Phrase.Scan
import Abacus.Slots

/-!
A program is a source text with every phrase parsed and linked once. A phrase that cannot be
parsed or linked keeps its fault, which is reported when the phrase is reached.
-/

namespace Abacus

inductive Linked where
  | skipped
  | op (op : Op)
  | broken (fault : Fault)
deriving DecidableEq

namespace Linked

def op? : Linked → Option Op
  | .op statement => some statement
  | _ => none

def fault? : Linked → Option Fault
  | .broken fault => some fault
  | _ => none

end Linked

structure Entry where
  phrase : Phrase
  linked : Linked
deriving DecidableEq

def Phrase.link (phrase : Phrase) (slots : Slots) : Linked × Slots :=
  match phrase.parse with
  | .error fault => (.broken fault, slots)
  | .ok none => (.skipped, slots)
  | .ok (some statement) =>
    match statement.link slots with
    | (.ok op, slots) => (.op op, slots)
    | (.error fault, slots) => (.broken { fault with place := phrase.place }, slots)

/-- The keywords of the phrases are kept in an outline, so that jumps are found fast. -/
structure Program where
  entries : Array Entry
  slots : Slots
  outline : Outline := Outline.ofPhrases (entries.map Entry.phrase)
  outline_eq : outline = Outline.ofPhrases (entries.map Entry.phrase) := by rfl

namespace Program

structure Linking where
  entries : Array Entry := #[]
  slots : Slots := {}

def Linking.next : Linking → Phrase → Linking
  | ⟨entries, slots⟩, phrase =>
    let (linked, slots) := phrase.link slots
    ⟨entries.push ⟨phrase, linked⟩, slots⟩

def ofPhrases (phrases : Array Phrase) : Program :=
  let linking := phrases.foldl Linking.next {}
  { entries := linking.entries, slots := linking.slots }

def ofSource (source : String) : Program := ofPhrases (Phrase.scan source.toList)

def size (program : Program) : Nat := program.entries.size

def isEmpty (program : Program) : Bool := program.entries.isEmpty

def phrase? (program : Program) (address : Nat) : Option Phrase :=
  program.entries[address]?.map Entry.phrase

/-- What the phrase at an address came to; past the end there is nothing to do. -/
def linkedAt (program : Program) (address : Nat) : Linked :=
  match program.entries[address]? with
  | some entry => entry.linked
  | none => .skipped

def firstFault? (program : Program) : Option Fault :=
  program.entries.findSome? fun entry => entry.linked.fault?

end Program

end Abacus
