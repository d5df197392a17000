import Abacus.Proofs.CompileFaults
import Abacus.Proofs.Detection
import Abacus.Proofs.LinkedPhrases
import Abacus.Proofs.NameLookup

/-!
Source texts that look like compiled files. The magic bytes spell a word that no keyword begins
with, so the first phrase of such a text is broken. A program with a broken first phrase stays where
it starts. Main statement: no text that compiles, or of which one statement can be run, is taken for
a compiled file, while every compiled program is.
-/

namespace Abacus

namespace Text

theorem prefix_of_utf8 {front text : String} (start : utf8 front <+: utf8 text) :
    front.toList <+: text.toList := by
  obtain ⟨rest, whole⟩ := start
  apply List.isPrefix_of_utf8Encode_append_eq_utf8Encode ⟨rest.toArray⟩
  rw [String.utf8Encode_toList, String.utf8Encode_toList]
  apply ByteArray.ext
  apply Array.toList_inj.1
  rw [ByteArray.data_append, Array.toList_append]
  exact whole

theorem words_cons {c : Char} (solid : isBlank c = false) (text : List Char) :
    ∃ word others, words (c :: text) = (c :: word) :: others := by
  obtain ⟨first, rest, cut⟩ := List.exists_cons_of_ne_nil (List.splitOnP_ne_nil isBlank text)
  refine ⟨first, rest.filter fun word => !word.isEmpty, ?_⟩
  unfold words
  rw [List.splitOnP_cons_eq_if_modifyHead, if_neg (by simp [solid]), cut]
  simp

theorem head?_splitOn (sign : Char) (text : List Char) :
    (text.splitOn sign).head? = some (text.takeWhile (· != sign)) := by
  induction text with
  | nil => simp
  | cons c text induction =>
      rw [List.splitOn_cons_eq_if_modifyHead, List.takeWhile_cons]
      by_cases ends : c = sign
      · simp [ends]
      · simp [ends, induction]

end Text

/-- No keyword begins as the magic bytes do in lower case. -/
theorem Keyword.ofWord?_of_head {word : String} (head : word.toList.head? = some 'b') :
    ofWord? word = none := by
  rw [Option.eq_none_iff_forall_ne_some]
  intro keyword known
  rw [← ofWord?_eq_some_iff.1 known] at head
  revert head
  cases keyword <;> decide

namespace Phrase

/-- What stands before the first semicolon of a text, as a phrase on the first line. -/
def opening (source : List Char) : Phrase := ofRaw 1 (source.takeWhile (· != ';'))

theorem scan_opening {c : Char} (solid : Text.isBlank c = false) (inside : c ≠ ';')
    (rest : List Char) : (scan (c :: rest))[0]? = some (opening (c :: rest)) := by
  obtain ⟨more, cut⟩ := List.head?_eq_some_iff.1 (Text.head?_splitOn ';' (c :: rest))
  have piece : (c :: rest).takeWhile (· != ';') = c :: rest.takeWhile (· != ';') := by
    rw [List.takeWhile_cons, if_pos (bne_iff_ne.2 inside)]
  have own : ofPiece 1 (c :: rest.takeWhile (· != ';')) = opening (c :: rest) := by
    unfold ofPiece opening
    rw [piece, List.takeWhile_cons_of_neg (by simp [solid])]
    rfl
  rw [← Array.getElem?_toList, scan_eq_ofPieces, cut, piece, ← own]
  cases more with
  | nil => simp [ofPieces, Text.isBlankText, solid]
  | cons next more => rfl

theorem head?_of_isSkipped {phrase : Phrase} {word : String} {others : List String}
    (skipped : phrase.isSkipped = true) (words : phrase.words = word :: others) :
    word.toList.head? = some '#' := by
  unfold Phrase.words at words
  cases spelled : phrase.text.toList with
  | nil =>
      rw [spelled] at words
      cases words
  | cons c rest =>
      have filled : phrase.text ≠ "" := by
        intro empty
        rw [empty] at spelled
        cases spelled
      have comment : c = '#' := by
        simpa [isSkipped, isBlank, isComment, filled, spelled] using skipped
      obtain ⟨more, later, cut⟩ := Text.words_cons (c := '#') (by decide) rest
      rw [spelled, comment, cut, List.map_cons, List.cons.injEq] at words
      rw [← words.1, String.toList_ofList]
      rfl

theorem parse_of_unknown {phrase : Phrase} {word : String} {others : List String}
    (words : phrase.words = word :: others) (foreign : word.toList.head? ≠ some '#')
    (unknown : Keyword.ofWord? word = none) :
    phrase.parse = .error (phrase.fault .badStatement .unknownInstruction) := by
  have kept : phrase.isSkipped = false := by
    rw [← Bool.not_eq_true]
    intro skipped
    exact foreign (head?_of_isSkipped skipped words)
  simp [parse, kept, words, unknown]

/-- The letter that the magic bytes begin with is enough for an unknown instruction. -/
theorem parse_opening (rest : List Char) :
    (opening ('B' :: rest)).parse =
      .error ((opening ('B' :: rest)).fault .badStatement .unknownInstruction) := by
  obtain ⟨word, others, cut⟩ :=
    Text.words_cons (c := 'B') (by decide) (rest.takeWhile (· != ';'))
  have words : (opening ('B' :: rest)).words = _ := words_ofRaw 1 ('B' :: rest.takeWhile (· != ';'))
  rw [cut, List.map_cons] at words
  have head : (String.ofList (Text.lower ('B' :: word))).toList.head? = some 'b' := by
    rw [String.toList_ofList, Text.lower_eq_lowerFrom]
    rfl
  apply parse_of_unknown words
  · rw [head]
    decide
  · exact Keyword.ofWord?_of_head head

end Phrase

namespace Program

open Bytecode

variable {program : Program} {fault : Fault}

theorem run?_of_failure {state left : State} (fresh : state.Fresh)
    (failure : program.Failure state fault left) (rounds : Nat) :
    program.run? (rounds + 1) state = some (some fault, { left with done := true }) := by
  have fails : program.Fails state fault left := ⟨state, ⟨0, .none state⟩, failure⟩
  rcases run?_cases program (rounds + 1) fresh with ⟨after, steps, _⟩ | ⟨after, halts, _⟩ |
    ⟨other, stuck, others, answer⟩
  · have bounded := Steps.le_of_final program.move_deterministic (.none state)
      (final_of_failure failure) steps
    rw [roundCycles] at bounded
    omega
  · exact absurd fails halts.not_fails
  · obtain ⟨rfl, rfl⟩ := fails.unique others
    exact answer

/-- The first phrase is broken, and nothing comes of the program but its fault. -/
structure Stuck (program : Program) (phrase : Phrase) (fault : Fault) : Prop where
  first : program.entries[0]? = some ⟨phrase, .broken fault⟩
  compile : program.compile = .error fault
  run : ∀ rounds, program.run? (rounds + 1) (.start program) =
    some (some fault, { State.start program with done := true })
  idle : ∀ state, program.Reachable state →
    state.vars = .ofSlots program.slots ∧ program.step state = .failed fault state

section Broken

variable {phrase : Phrase} (first : program.entries[0]? = some ⟨phrase, .broken fault⟩)
include first

theorem firstFault?_of_first : program.firstFault? = some fault := by
  rw [← Array.getElem?_toList] at first
  unfold firstFault?
  rw [← Array.findSome?_toList]
  cases listed : program.entries.toList with
  | nil =>
      rw [listed] at first
      cases first
  | cons entry rest =>
      rw [listed] at first
      cases first
      rfl

theorem failure_of_first {state : State} (start : state.pc = 0) :
    program.Failure state fault state := by
  rw [← start] at first
  exact .broken first

theorem start_of_reachable {state : State} (reachable : program.Reachable state) :
    state.pc = 0 ∧ state.vars = .ofSlots program.slots := by
  have invariant : program.Invariant fun state =>
      state.pc = 0 ∧ state.vars = .ofSlots program.slots := by
    constructor
    · intro state after held move
      exact absurd move (final_of_failure (failure_of_first first held.1) after)
    · intro state left other held failure
      have same := step_of_failure failure
      rw [step_of_failure (failure_of_first first held.1)] at same
      cases same
      exact held
    · intro state trace done interrupted held
      exact held
  apply invariant.of_reachable
  · exact ⟨rfl, rfl⟩
  · intro state held
    refine ⟨rfl, ?_⟩
    simp [State.reset, held.2, Variables.clear, Variables.ofSlots, Function.comp_def]
  · exact reachable

theorem stuck_of_first : program.Stuck phrase fault := by
  refine ⟨first, compile_of_firstFault? (firstFault?_of_first first), ?_, ?_⟩
  · apply run?_of_failure (State.fresh_start program)
    exact failure_of_first first rfl
  · intro state reachable
    obtain ⟨start, vars⟩ := start_of_reachable first reachable
    exact ⟨vars, step_of_failure (failure_of_first first start)⟩

end Broken

theorem entry_of_refused {phrases : Array Phrase} {index : Nat} {phrase : Phrase}
    (here : phrases[index]? = some phrase) (refused : phrase.parse = .error fault) :
    (ofPhrases phrases).entries[index]? = some ⟨phrase, .broken fault⟩ := by
  have keeps := ofPhrases_keeps phrases
  rw [← Array.getElem?_toList, ← keeps.phrases, List.getElem?_map, Option.map_eq_some_iff] at here
  obtain ⟨entry, found, rfl⟩ := here
  rw [Array.getElem?_toList] at found
  have links := (keeps.faithful entry (Array.mem_of_getElem? found)).linksTo
  rw [found, ← (links.broken fault).2 (.inl refused)]

theorem stuck_of_magic {source : String} (marked : magic <+: Text.utf8 source) :
    (ofSource source).Stuck (.opening source.toList)
      ((Phrase.opening source.toList).fault .badStatement .unknownInstruction) := by
  have bytes : Text.utf8 "BONE" = magic := by decide +kernel
  rw [← bytes] at marked
  obtain ⟨rest, spelled⟩ := Text.prefix_of_utf8 marked
  replace spelled : source.toList = 'B' :: ('O' :: 'N' :: 'E' :: rest) := spelled.symm
  apply stuck_of_first
  unfold ofSource
  rw [spelled]
  apply entry_of_refused
  · exact Phrase.scan_opening (by decide) (by decide) _
  · exact Phrase.parse_opening _

/-- After some row of calls, a statement of the program can be run. -/
def RunsAny (program : Program) : Prop :=
  ∃ state after, program.Reachable state ∧ program.step state = .ran after

/-- Detection takes no program away. A text that begins with the magic bytes has an unknown
instruction in its first line, with which compiling and running fail before anything is done, so no
text that compiles or runs is taken for a compiled file; what a program is compiled to always is. -/
theorem detection_spares_programs :
    (∀ source, magic <+: Text.utf8 source →
      isCompiled (Text.utf8 source) = true ∧
        ∃ text, (ofSource source).Stuck ⟨1, text⟩
          ⟨.badStatement, .statement 1 text, .unknownInstruction⟩) ∧
      (∀ source, (∃ container, (ofSource source).compile = .ok container) ∨
          (ofSource source).RunsAny →
        isCompiled (Text.utf8 source) = false) ∧
      ∀ container : Container, isCompiled container.encode = true := by
  refine ⟨?_, ?_, isCompiled_encode⟩
  · intro source marked
    exact ⟨isCompiled_iff.2 marked, _, stuck_of_magic marked⟩
  · intro source used
    rw [← Bool.not_eq_true, isCompiled_iff]
    intro marked
    have stuck := stuck_of_magic marked
    rcases used with ⟨container, compiled⟩ | ⟨state, after, reachable, ran⟩
    · rw [stuck.compile] at compiled
      cases compiled
    · rw [(stuck.idle state reachable).2] at ran
      cases ran

theorem detection_spares_bone :
    (∃ text, (ofSource "BONEΣ\nx;incr x").Stuck ⟨1, text⟩
      ⟨.badStatement, .statement 1 text, .unknownInstruction⟩) ∧
      isCompiled (Text.utf8 "incr BONE") = false := by
  have marked : magic <+: Text.utf8 "BONEΣ\nx;incr x" := by decide +kernel
  have compiled : (ofSource "incr BONE").compile =
      .ok ⟨1, [.inc 0], [(0, "bone")], by decide⟩ := by decide +kernel
  exact ⟨(detection_spares_programs.1 _ marked).2,
    detection_spares_programs.2.1 _ (.inl ⟨_, compiled⟩)⟩

end Program

end Abacus
