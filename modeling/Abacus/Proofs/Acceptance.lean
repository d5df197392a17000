import Mathlib.Data.List.Basic
import Abacus.Proofs.CompileFaults

/-!
Which programs compile. Main statement: exactly those whose phrases all mean something, whose
keywords are a program of the block grammar, which nest their blocks no deeper than the stack
allows, and which leave room for the variable of sure jumps and for their code. Any other program
is refused with the fault of its first broken phrase, if it has one, and never with an internal
fault.
-/

namespace Abacus

open Grammar

namespace Phrase

def keywords (phrases : List Phrase) : List Keyword := phrases.filterMap keyword?

def branching (phrases : List Phrase) : Bool :=
  (keywords phrases).any fun keyword => keyword ∈ Keyword.branchStarts

end Phrase

namespace Program

/-- What the compiler asks of a program. -/
structure WellFormed (phrases : Array Phrase) : Prop where
  meaningful : (ofPhrases phrases).firstFault? = none
  grammatical : Derives .program (Phrase.keywords phrases.toList)
  shallow : ∀ count,
    (Phrase.keywords (phrases.toList.take count)).countP Keyword.opensBlock ≤
      (Phrase.keywords (phrases.toList.take count)).countP Keyword.closesBlock + 65535
  roomy : Phrase.branching phrases.toList = true →
    (phrases.toList.filterMap Phrase.operand?).eraseDups.length ≤ 65534
  small : (if Phrase.branching phrases.toList then 14 else 0) +
    ((ofPhrases phrases).entries.toList.map fun entry => entry.linked.codeLength).sum ≤ 4294967295

theorem phrases_ofPhrases (phrases : Array Phrase) :
    (ofPhrases phrases).entries.toList.map Entry.phrase = phrases.toList :=
  (ofPhrases_keeps phrases).phrases

theorem outline_ofPhrases (phrases : Array Phrase) :
    (ofPhrases phrases).outline.toList = phrases.toList.map Phrase.keyword? := by
  rw [outline_eq_map, Array.toList_map, ← phrases_ofPhrases, List.map_map]
  rfl

theorem wordFrom_ofPhrases (phrases : Array Phrase) :
    (ofPhrases phrases).outline.wordFrom 0 = Phrase.keywords phrases.toList := by
  rw [Outline.wordFrom, outline_ofPhrases, List.drop_zero, List.filterMap_map]
  rfl

theorem wordBefore_ofPhrases (phrases : Array Phrase) (count : Nat) :
    (ofPhrases phrases).outline.wordBefore count =
      Phrase.keywords (phrases.toList.take count) := by
  rw [Outline.wordBefore, outline_ofPhrases, ← List.map_take, List.filterMap_map]
  rfl

theorem unbroken_of_firstFault? {program : Program} (clean : program.firstFault? = none)
    {entry : Entry} (member : entry ∈ program.entries) {fault : Fault} :
    entry.linked ≠ .broken fault := by
  intro broken
  have none := Array.findSome?_eq_none_iff.1 clean entry member
  simp [broken, Linked.fault?] at none

theorem branches_eq {phrases : Array Phrase} (clean : (ofPhrases phrases).firstFault? = none) :
    (ofPhrases phrases).branches = Phrase.branching phrases.toList := by
  have linked := wellLinked_ofPhrases phrases
  have same : ∀ entry ∈ (ofPhrases phrases).entries.toList,
      entry.linked.branches =
        entry.phrase.keyword?.any fun keyword => keyword ∈ Keyword.branchStarts := by
    intro entry member
    have inside := Array.mem_toList_iff.1 member
    have faithful := linked.faithful entry inside
    cases faithful with
    | skipped blank => rw [Phrase.keyword?_of_skipped blank]; rfl
    | op spelled keyword =>
        rw [spelled.keyword?, ← keyword, Option.any_some, Bool.eq_iff_iff,
          Bytecode.Layout.branches_iff_keyword, decide_eq_true_eq]
    | malformed => exact absurd rfl (unbroken_of_firstFault? clean inside)
    | crowded => exact absurd rfl (unbroken_of_firstFault? clean inside)
  rw [branches, ← Array.any_toList, Phrase.branching, Phrase.keywords, List.any_filterMap,
    ← phrases_ofPhrases, List.any_map, Bool.eq_iff_iff, List.any_eq_true, List.any_eq_true]
  refine exists_congr fun entry => and_congr_right fun member => ?_
  rw [same entry member]
  rfl

/-- Where all phrases mean something, the second words are the names of variables. -/
theorem filterMap_operand?_eq {phrases : Array Phrase}
    (clean : (ofPhrases phrases).firstFault? = none) :
    phrases.toList.filterMap Phrase.operand? = phrases.toList.filterMap Phrase.name? := by
  have linked := wellLinked_ofPhrases phrases
  rw [← phrases_ofPhrases, List.filterMap_map, List.filterMap_map]
  apply List.filterMap_congr
  intro entry member
  have inside := Array.mem_toList_iff.1 member
  have faithful := linked.faithful entry inside
  cases faithful with
  | skipped blank =>
      simp [Phrase.operand?, Phrase.name?, blank, Phrase.parse_eq_none_iff.2 blank]
  | op spelled => simp [spelled.operand?, spelled.name?]
  | malformed => exact absurd rfl (unbroken_of_firstFault? clean inside)
  | crowded => exact absurd rfl (unbroken_of_firstFault? clean inside)

theorem size_slots_lt_iff {phrases : Array Phrase}
    (clean : (ofPhrases phrases).firstFault? = none) :
    (ofPhrases phrases).slots.size < Slots.capacity ↔
      (phrases.toList.filterMap Phrase.operand?).eraseDups.length ≤ 65534 := by
  have names := congrArg List.length (ofPhrases_keeps phrases).names
  rw [Array.length_toList, Slots.firstNames, List.length_take] at names
  rw [filterMap_operand?_eq clean, Slots.size, names, Slots.capacity]
  omega

theorem prologue_add_codeSpan {phrases : Array Phrase}
    (clean : (ofPhrases phrases).firstFault? = none) :
    Bytecode.Layout.prologueLength (ofPhrases phrases).branches +
        (ofPhrases phrases).codeSpan (ofPhrases phrases).size =
      (if Phrase.branching phrases.toList then 14 else 0) +
        ((ofPhrases phrases).entries.toList.map fun entry => entry.linked.codeLength).sum := by
  rw [branches_eq clean, codeSpan, size, List.take_of_length_le (by simp)]
  rfl

open Bytecode

theorem wellFormed_of_compile {phrases : Array Phrase} {container : Container}
    (compiled : (ofPhrases phrases).compile = .ok container) : WellFormed phrases := by
  have linked := wellLinked_ofPhrases phrases
  obtain ⟨layout, compiles, _⟩ := compiles_of_compile linked compiled
  obtain ⟨clean, room, fits, _⟩ := Layout.ofProgram_eq_ok_iff.1 compiles.laid
  have nested := compiles.nestAll_before linked (Nat.le_refl _)
  rw [wordBefore_ofPhrases] at nested
  have depth : ∀ count ≤ (ofPhrases phrases).size,
      (Phrase.keywords (phrases.toList.take count)).countP Keyword.opensBlock ≤
        (Phrase.keywords (phrases.toList.take count)).countP Keyword.closesBlock + 65535 := by
    intro count inside
    have bounded := compiles.length_blocks_le inside
    have counted := length_nestAll (compiles.nestAll_before linked inside)
    rw [wordBefore_ofPhrases, List.length_nil] at counted
    simp only [Stack.limit] at bounded
    omega
  have whole : ∀ count, (ofPhrases phrases).size ≤ count →
      phrases.toList.take count = phrases.toList := by
    intro count past
    apply List.take_of_length_le
    rw [← phrases_ofPhrases, List.length_map, Array.length_toList]
    exact past
  refine ⟨clean, ?_, ?_, ?_, ?_⟩
  · rw [whole _ (Nat.le_refl _)] at nested
    exact derives_program_iff.2 ⟨_, nested, compiles.no_open_chain linked⟩
  · intro count
    rcases Nat.le_total count (ofPhrases phrases).size with inside | past
    · exact depth count inside
    · rw [whole count past, ← whole _ (Nat.le_refl _)]
      exact depth _ (Nat.le_refl _)
  · rw [← branches_eq clean, ← size_slots_lt_iff clean]
    exact room
  · rw [← prologue_add_codeSpan clean]
    exact fits

theorem compile_of_wellFormed {phrases : Array Phrase} (wellFormed : WellFormed phrases) :
    ∃ container, (ofPhrases phrases).compile = .ok container := by
  have linked := wellLinked_ofPhrases phrases
  have clean := wellFormed.meaningful
  have room : (ofPhrases phrases).branches = true →
      (ofPhrases phrases).slots.size < Slots.capacity := by
    rw [branches_eq clean, size_slots_lt_iff clean]
    exact wellFormed.roomy
  have fits := wellFormed.small
  rw [← prologue_add_codeSpan clean] at fits
  have laid : Layout.ofProgram (ofPhrases phrases) = .ok (Layout.natural (ofPhrases phrases)) :=
    Layout.ofProgram_eq_ok_iff.2 ⟨clean, room, fits, rfl⟩
  obtain ⟨blocks, nested, ended⟩ := derives_program_iff.1 wellFormed.grammatical
  rw [← wordFrom_ofPhrases] at nested
  have compiles := Layout.compiles_of_nested linked laid nested ended (by
    intro count
    rw [wordBefore_ofPhrases]
    exact wellFormed.shallow count)
  obtain ⟨container, compiled, _⟩ := compile_of_compiles linked compiles
  exact ⟨container, compiled⟩

theorem compile_accepts_exactly (phrases : Array Phrase) :
    ((∃ container, (ofPhrases phrases).compile = .ok container) ↔ WellFormed phrases) ∧
      ∀ fault, (ofPhrases phrases).compile = .error fault →
        (∀ first, (ofPhrases phrases).firstFault? = some first → fault = first) ∧
          fault.kind ≠ .internal := by
  refine ⟨⟨?_, compile_of_wellFormed⟩, ?_⟩
  · rintro ⟨container, compiled⟩
    exact wellFormed_of_compile compiled
  · intro fault refused
    refine ⟨?_, kind_compile (wellLinked_ofPhrases phrases) refused⟩
    intro first found
    rw [compile_of_firstFault? found] at refused
    exact (Except.error.inj refused).symm

end Program

end Abacus
