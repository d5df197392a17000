import Mathlib.Data.List.Basic
import Abacus.Proofs.StructuredRuns

/-!
Programs whose phrases are the statements of a block, one after the other. Main statement: a whole
run of such a program gives its variables exactly when the block comes to these values from the
store that is zero everywhere, and overflows exactly when the block does, with the same values.
-/

namespace Abacus.Program

open Structured

/-- The phrases are the statements of the block, written out in order. -/
def Flattens (block : Block) (phrases : Array Phrase) : Prop :=
  phrases.toList.map Phrase.parse = block.statements.map fun statement => .ok (some statement)

def phrasesOf (block : Block) (line : Nat) : Array Phrase :=
  (block.statements.map fun statement => ⟨line, statement.render id⟩).toArray

variable {block : Block} {phrases : Array Phrase}

theorem flattens_phrasesOf (named : ∀ name ∈ block.names, Text.IsWord name) (line : Nat) :
    Flattens block (phrasesOf block line) := by
  rw [Flattens, phrasesOf, List.map_map]
  apply List.map_congr_left
  intro statement member
  apply Phrase.parse_of_spells
  apply Phrase.spells_render
  intro name operand
  apply named
  rw [Block.names, List.mem_eraseDups]
  exact List.mem_filterMap.2 ⟨statement, member, operand⟩

theorem size_of_flattens (flat : Flattens block phrases) :
    (ofPhrases phrases).size = block.statements.length := by
  have lengths := congrArg List.length flat
  rw [List.length_map, List.length_map, ← (ofPhrases_keeps phrases).phrases, List.length_map,
    Array.length_toList] at lengths
  exact lengths

theorem filterMap_name? (flat : Flattens block phrases) :
    phrases.toList.filterMap Phrase.name? = block.statements.filterMap Statement.operand? := by
  have reads : Phrase.name? =
      (fun parsed => parsed.toOption.join.bind Statement.operand?) ∘ Phrase.parse := by
    funext phrase
    unfold Phrase.name?
    rcases parsed : phrase.parse with _ | _ | _ <;> simp [Except.toOption, parsed]
  have parts := congrArg
    (List.filterMap fun parsed => parsed.toOption.join.bind Statement.operand?) flat
  rw [List.filterMap_map, List.filterMap_map] at parts
  rw [reads]
  exact parts

theorem names_of_flattens (flat : Flattens block phrases) (few : block.names.length ≤ 65535) :
    (ofPhrases phrases).slots.names.toList = block.names := by
  have held := (ofPhrases_keeps phrases).names
  rw [filterMap_name? flat] at held
  exact held.trans (List.take_of_length_le few)

theorem holds_of_flattens (flat : Flattens block phrases) (few : block.names.length ≤ 65535)
    {address : Nat} {statement : Statement String}
    (found : block.statements[address]? = some statement) :
    (ofPhrases phrases).Holds address statement := by
  have linked := wellLinked_ofPhrases phrases
  have known : ∀ name, statement.operand? = some name → name ∈ (ofPhrases phrases).slots.names := by
    intro name operand
    rw [← Array.mem_toList_iff, names_of_flattens flat few, Block.names, List.mem_eraseDups]
    exact List.mem_filterMap.2 ⟨statement, List.mem_of_getElem? found, operand⟩
  refine ⟨?_, known⟩
  have bounded : address < (ofPhrases phrases).entries.size := by
    have := (List.getElem?_eq_some_iff.1 found).1
    rw [← size_of_flattens flat] at this
    exact this
  have here := Array.getElem?_eq_getElem bounded
  have faithful := linked.faithful _ (Array.getElem_mem bounded)
  have parsed : (ofPhrases phrases).entries[address].phrase.parse = .ok (some statement) := by
    have part := congrArg (·[address]?) flat
    rw [← (ofPhrases_keeps phrases).phrases] at part
    simpa [found, here] using part
  generalize (ofPhrases phrases).entries[address] = entry at here faithful parsed
  cases faithful with
  | skipped blank =>
      rw [Phrase.parse_eq_none_iff.2 blank] at parsed
      cases parsed
  | malformed refused =>
      rw [refused] at parsed
      cases parsed
  | crowded spelled operand absent =>
      rw [Phrase.parse_of_spells spelled] at parsed
      cases parsed
      exact absurd (known _ operand) absent
  | @op phrase _ op spelled keyword operand =>
      rw [Phrase.parse_of_spells spelled] at parsed
      cases parsed
      refine ⟨phrase, ?_⟩
      have same : op = statement.map (ofPhrases phrases).slots.slotOf := by
        refine Statement.ext_operand (by rw [keyword, Statement.keyword_map]) ?_
        rw [Statement.operand?_map]
        cases slot : op.operand? <;> cases name : statement.operand? <;>
          simp only [slot, name, Option.map_none, Option.map_some, Option.some.injEq,
            reduceCtorEq] at operand ⊢
        exact (linked.sound.slotOf_eq operand).symm
      rw [At, here, same]

theorem reads_of_holds {program : Program} {address : Nat} {statements : List (Statement String)}
    (holds : ∀ index statement, statements[index]? = some statement →
      program.Holds (address + index) statement) : program.Reads address statements := by
  induction statements generalizing address with
  | nil => trivial
  | cons statement rest induction =>
      refine ⟨holds 0 statement rfl, induction ?_⟩
      intro index other found
      rw [Nat.add_right_comm]
      exact holds (index + 1) other found

theorem start_eq_stateAt (program : Program) :
    State.start program = program.stateAt .zero .empty 0 := rfl

theorem table_of_flattens (flat : Flattens block phrases) (few : block.names.length ≤ 65535)
    (store : Store) :
    store.table (ofPhrases phrases).slots.names = store.table block.names.toArray := by
  rw [← names_of_flattens flat few]

theorem reads_of_flattens (flat : Flattens block phrases) (few : block.names.length ≤ 65535) :
    (ofPhrases phrases).Reads 0 block.statements := by
  apply reads_of_holds
  intro index statement found
  rw [Nat.zero_add]
  exact holds_of_flattens flat few found

section Whole

variable (flat : Flattens block phrases) (shallow : block.depth ≤ 65535)
  (few : block.names.length ≤ 65535)
include flat shallow few

/-- The run of the whole block comes to the outcomes of the block. -/
theorem arrives_of_flattens {outcome : Outcome} (eval : Eval block .zero outcome) :
    (ofPhrases phrases).Arrives (.start (ofPhrases phrases)) .empty (ofPhrases phrases).size
      outcome := by
  refine arrives_of_eval (wellLinked_ofPhrases phrases) eval .empty
    (reads_of_flattens flat few) ?_ ?_
  · simpa [Stack.empty, Stack.limit] using shallow
  · rw [size_of_flattens flat, Nat.zero_add]

theorem eval_of_steps {count : Nat} {last : State}
    (steps : Steps (ofPhrases phrases).Move count (.start (ofPhrases phrases)) last)
    (final : Final (ofPhrases phrases).Move last) : ∃ outcome, Eval block .zero outcome := by
  rw [start_eq_stateAt] at steps
  refine eval_of_ends (wellLinked_ofPhrases phrases) (reads_of_flattens flat few) ?_ steps final
  simpa [Stack.empty, Stack.limit] using shallow

theorem halts_of_eval {store : Store} (eval : Eval block .zero (.finished store)) :
    ∃ last, (ofPhrases phrases).Halts (.start (ofPhrases phrases)) last ∧
      last.vars = store.table block.names.toArray := by
  obtain ⟨count, steps⟩ := arrives_of_flattens flat shallow few eval
  refine ⟨_, ⟨⟨count, steps⟩, Nat.le_refl _⟩, ?_⟩
  exact table_of_flattens flat few store

theorem fails_of_eval {store : Store} (eval : Eval block .zero (.overflowed store)) :
    ∃ fault left, (ofPhrases phrases).Fails (.start (ofPhrases phrases)) fault left ∧
      fault.kind = .overflow ∧ left.vars = store.table block.names.toArray := by
  obtain ⟨fault, left, fails, kind, vars⟩ := arrives_of_flattens flat shallow few eval
  rw [table_of_flattens flat few] at vars
  exact ⟨fault, left, fails, kind, vars⟩

theorem returns_iff_eval (vars : Variables) :
    (ofPhrases phrases).Returns vars ↔
      ∃ store, Eval block .zero (.finished store) ∧ vars = store.table block.names.toArray := by
  constructor
  · intro returns
    obtain ⟨last, halts, rfl⟩ := returns_iff.1 returns
    obtain ⟨⟨count, steps⟩, past⟩ := id halts
    obtain ⟨outcome, eval⟩ := eval_of_steps flat shallow few steps (final_of_end past)
    cases outcome with
    | finished store =>
        obtain ⟨other, halted, same⟩ := halts_of_eval flat shallow few eval
        rw [halts.unique halted]
        exact ⟨store, eval, same⟩
    | overflowed store =>
        obtain ⟨fault, left, fails, _⟩ := fails_of_eval flat shallow few eval
        exact absurd fails halts.not_fails
  · rintro ⟨store, eval, rfl⟩
    obtain ⟨last, halts, same⟩ := halts_of_eval flat shallow few eval
    exact returns_iff.2 ⟨last, halts, same⟩

theorem overflows_iff_eval (vars : Variables) :
    (ofPhrases phrases).Overflows vars ↔
      ∃ store, Eval block .zero (.overflowed store) ∧
        vars = store.table block.names.toArray := by
  constructor
  · intro overflows
    obtain ⟨fault, left, fails, kind, rfl⟩ := overflows_iff.1 overflows
    obtain ⟨last, ⟨count, steps⟩, failure⟩ := id fails
    obtain ⟨outcome, eval⟩ := eval_of_steps flat shallow few steps (final_of_failure failure)
    cases outcome with
    | finished store =>
        obtain ⟨other, halted, _⟩ := halts_of_eval flat shallow few eval
        exact absurd fails halted.not_fails
    | overflowed store =>
        obtain ⟨other, otherLeft, failed, _, same⟩ := fails_of_eval flat shallow few eval
        obtain ⟨_, rfl⟩ := fails.unique failed
        exact ⟨store, eval, same⟩
  · rintro ⟨store, eval, rfl⟩
    obtain ⟨fault, left, fails, kind, same⟩ := fails_of_eval flat shallow few eval
    exact overflows_iff.2 ⟨fault, left, fails, kind, same⟩

end Whole

/-- A block whose names are words can be written out flat, and a run of a program that writes it
out agrees with the meaning of the block. -/
theorem run_agrees_with_block (shallow : block.depth ≤ 65535)
    (few : block.names.length ≤ 65535) :
    ((∀ name ∈ block.names, Text.IsWord name) →
        ∀ line, Flattens block (phrasesOf block line)) ∧
      ∀ phrases, Flattens block phrases → ∀ vars,
        ((ofPhrases phrases).Returns vars ↔
            ∃ store, Eval block .zero (.finished store) ∧
              vars = store.table block.names.toArray) ∧
          ((ofPhrases phrases).Overflows vars ↔
            ∃ store, Eval block .zero (.overflowed store) ∧
              vars = store.table block.names.toArray) := by
  refine ⟨flattens_phrasesOf, ?_⟩
  intro phrases flat vars
  exact ⟨returns_iff_eval flat shallow few vars, overflows_iff_eval flat shallow few vars⟩

def countdownBlock : Block :=
  .incr "x" (.loop "x"
    (.chain "y" (.incr "y" .done) (.otherwise (.decr "x" .done) .none) .done) .done)

theorem run_agrees_with_countdownBlock :
    countdownBlock.depth ≤ 65535 ∧ countdownBlock.names.length ≤ 65535 ∧
      (∀ name ∈ countdownBlock.names, Text.IsWord name) ∧
      phrasesOf countdownBlock 1 = countdown ∧ Flattens countdownBlock countdown ∧
      ∃ store, Eval countdownBlock .zero (.finished store) ∧
        ⟨#[⟨"x", 0⟩, ⟨"y", 0⟩]⟩ = store.table countdownBlock.names.toArray := by
  have shallow : countdownBlock.depth ≤ 65535 := by decide
  have few : countdownBlock.names.length ≤ 65535 := by decide +kernel
  have named : ∀ name ∈ countdownBlock.names, Text.IsWord name := by decide +kernel
  have written : phrasesOf countdownBlock 1 = countdown := by decide +kernel
  obtain ⟨flattens, agrees⟩ := run_agrees_with_block shallow few
  have flat : Flattens countdownBlock countdown := written ▸ flattens named 1
  exact ⟨shallow, few, named, written, flat, (agrees countdown flat _).1.1 returns_countdown⟩

end Abacus.Program
