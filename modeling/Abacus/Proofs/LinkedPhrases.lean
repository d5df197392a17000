import Mathlib.Data.List.Basic
import Abacus.Proofs.Linking

/-!
Each phrase against what linking made of it. Main statement: a program has one entry for each of its
phrases, its slots are the distinct names of the phrases that can be parsed in the order of their
first appearance, as many as there is room for, and an entry is skipped, a statement or broken as
its own phrase and those slots alone decide.
-/

namespace Abacus

namespace Phrase

variable {phrase : Phrase}

theorem name?_eq (phrase : Phrase) :
    phrase.name? = if phrase.parse.isOk then phrase.operand? else none := by
  rcases parse_cases phrase with ⟨blank, parsed⟩ | ⟨_, spelled, parsed⟩ | ⟨_, _, parsed⟩
  · simp [name?, parsed, operand?, blank]
  · simp [spelled.name?, parsed, spelled.operand?, Except.isOk, Except.toBool]
  · simp [name?, parsed, Except.isOk, Except.toBool]

theorem filterMap_name?_eq (phrases : List Phrase) :
    phrases.filterMap name? = (phrases.filter (·.parse.isOk)).filterMap operand? := by
  rw [List.filterMap_filter]
  exact List.filterMap_congr fun phrase _ => name?_eq phrase

/-- What a phrase comes to in a program with the given slots. -/
structure LinksTo (slots : Slots) (phrase : Phrase) (linked : Linked) : Prop where
  skipped : linked = .skipped ↔ phrase.isSkipped = true
  named : ∀ op, linked = .op op → phrase.keyword? = some op.keyword ∧
    (op.keyword.takesOperand = true → ∃ slot name, op.operand? = some slot ∧
      slots.name? slot = some name ∧ phrase.operand? = some name)
  statement : ∀ statement, phrase.parse = .ok (some statement) →
    (∀ name, phrase.operand? = some name → name ∈ slots.names) → ∃ op, linked = .op op
  broken : ∀ fault, linked = .broken fault ↔
    phrase.parse = .error fault ∨
      ∃ statement name, phrase.parse = .ok (some statement) ∧ phrase.operand? = some name ∧
        name ∉ slots.names ∧
        fault = ⟨.overflow, .statement phrase.line phrase.text, .tooManyVariables⟩

end Phrase

theorem Entry.Faithful.linksTo {slots : Slots} {entry : Entry}
    (faithful : entry.Faithful slots) : entry.phrase.LinksTo slots entry.linked := by
  cases faithful with
  | skipped blank =>
      have parsed := Phrase.parse_eq_none_iff.2 blank
      exact ⟨by simp [blank], by simp, by simp [parsed], by simp [parsed]⟩
  | @op phrase statement op spelled keyword operand =>
      have parsed := Phrase.parse_of_spells spelled
      have word := spelled.operand?
      refine ⟨by simp [spelled.1], ?_, by simp, ?_⟩
      · rintro _ ⟨⟩
        refine ⟨by rw [spelled.keyword?, keyword], ?_⟩
        intro takes
        rw [Statement.takesOperand_keyword, Option.isSome_iff_exists] at takes
        obtain ⟨slot, own⟩ := takes
        cases spoken : statement.operand? with
        | none => simp [own, spoken] at operand
        | some name =>
            rw [own, spoken] at operand
            exact ⟨slot, name, own, by simpa using operand, by rw [word, spoken]⟩
      · intro fault
        simp only [reduceCtorEq, parsed, false_iff, false_or]
        -- The name of a statement that was linked is in the table.
        rintro ⟨_, name, _, here, absent, _⟩
        rw [word] at here
        cases own : op.operand? with
        | none => simp [own, here] at operand
        | some slot =>
            rw [own, here] at operand
            have held : slots.name? slot = some name := by simpa using operand
            exact absent (Array.mem_of_getElem? held)
  | @malformed phrase fault refused =>
      have kept : phrase.isSkipped = false := by
        rw [← Bool.not_eq_true, ← Phrase.parse_eq_none_iff, refused]
        simp
      exact ⟨by simp [kept], by simp, by simp [refused], by simp [refused, eq_comm]⟩
  | @crowded phrase statement name spelled operand absent full =>
      have parsed := Phrase.parse_of_spells spelled
      have word : phrase.operand? = some name := spelled.operand?.trans operand
      refine ⟨by simp [spelled.1], by simp, ?_, ?_⟩
      · intro _ _ present
        exact absurd (present name word) absent
      · intro fault
        simp only [parsed, word, Linked.broken.injEq, Phrase.fault, Phrase.place]
        constructor
        · rintro rfl
          exact .inr ⟨statement, name, rfl, rfl, absent, rfl⟩
        · rintro (refused | ⟨_, _, _, _, _, rfl⟩)
          · cases refused
          · rfl

namespace Program

theorem linking_follows_phrases (phrases : Array Phrase) :
    (ofPhrases phrases).entries.toList.map Entry.phrase = phrases.toList ∧
      (ofPhrases phrases).slots.names.toList =
        ((phrases.toList.filter (·.parse.isOk)).filterMap Phrase.operand?).eraseDups.take 65535 ∧
      (∀ name slot, (ofPhrases phrases).slots.get? name = some slot ↔
        (ofPhrases phrases).slots.name? slot = some name) ∧
      ∀ (index : Nat) (phrase : Phrase), phrases[index]? = some phrase →
        phrase.LinksTo (ofPhrases phrases).slots ((ofPhrases phrases).linkedAt index) := by
  have keeps := ofPhrases_keeps phrases
  refine ⟨keeps.phrases, ?_, keeps.sound.index_iff, ?_⟩
  · rw [keeps.names, Slots.firstNames, Phrase.filterMap_name?_eq]
    rfl
  · intro index phrase here
    rw [← Array.getElem?_toList, ← keeps.phrases, List.getElem?_map,
      Option.map_eq_some_iff] at here
    obtain ⟨entry, found, rfl⟩ := here
    rw [Array.getElem?_toList] at found
    simp only [linkedAt, found]
    exact (keeps.faithful entry (Array.mem_of_getElem? found)).linksTo

example : (ofPhrases (#["incr y", "# x", "clear x z", "while z"].map (Phrase.mk 1))).slots.names =
    #["y", "z"] := by
  decide +kernel

end Program

end Abacus
