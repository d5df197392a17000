import Abacus.Phrase

/-!
The outline of a program is the row of its keywords, with nothing where a phrase has none.
Forward jumps are looked up in it: the next keyword of a given set that belongs to the same
block.
-/

namespace Abacus

abbrev Outline := Array (Option Keyword)

namespace Outline

def ofPhrases (phrases : Array Phrase) : Outline := phrases.map Phrase.keyword?

/-- Looks at the `left` entries from `index` on, `depth` blocks below the wanted level. -/
def seek (outline : Outline) (targets : List Keyword) :
    (left index depth : Nat) → Option Nat
  | 0, _, _ => none
  | left + 1, index, depth =>
    match outline[index]?.join with
    | none => seek outline targets left (index + 1) depth
    | some keyword =>
      if depth = 0 ∧ keyword ∈ targets then some index
      else if keyword.opensBlock then seek outline targets left (index + 1) (depth + 1)
      else if keyword.closesBlock then
        match depth with
        | 0 => none
        | outer + 1 => seek outline targets left (index + 1) outer
      else seek outline targets left (index + 1) depth

/-- The first entry after `start` whose keyword is among `targets`, past whole blocks. The
search ends at the close of the block around `start`. -/
def next? (outline : Outline) (start : Nat) (targets : List Keyword) : Option Nat :=
  outline.seek targets (outline.size - (start + 1)) (start + 1) 0

end Outline

end Abacus
