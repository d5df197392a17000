import Abacus.Statement

/-!
What a phrase parses to, read off its words. A phrase means a statement exactly when its words
are those of the statement; a phrase that is neither skipped nor a statement carries a fault of
its own, which is never an internal one. The written form of a statement spells it.
-/

namespace Abacus

theorem Statement.make?_of_arity {ν : Type} {keyword : Keyword} {operands : List ν}
    (arity : operands.length = if keyword.takesOperand then 1 else 0) :
    ∃ statement, make? keyword operands = some statement := by
  match operands, arity with
  | [], arity => cases keyword <;> simp_all [Keyword.takesOperand, make?]
  | [operand], arity => cases keyword <;> simp_all [Keyword.takesOperand, make?]
  | _ :: _ :: _, arity => cases keyword <;> simp_all [Keyword.takesOperand]

namespace Text

def IsWord (name : String) : Prop :=
  name ≠ "" ∧ ∀ c ∈ name.toList, isBlank c = false

instance (name : String) : Decidable (IsWord name) :=
  decidable_of_iff (name ≠ "" ∧ name.toList.all (fun c => !isBlank c) = true)
    (by simp [IsWord])

theorem IsWord.toList_ne_nil {name : String} (word : IsWord name) : name.toList ≠ [] := by
  intro empty
  exact word.1 (String.toList_eq_nil_iff.1 empty)

theorem words_toList {name : String} (word : IsWord name) :
    words name.toList = [name.toList] := by
  rw [words, List.splitOnP_eq_singleton word.2]
  simp [word.toList_ne_nil]

theorem words_append_space {name : String} (word : IsWord name) (rest : List Char) :
    words (name.toList ++ ' ' :: rest) = name.toList :: words rest := by
  rw [words, List.splitOnP_append_cons_of_forall_mem word.2 ' ' (by decide)]
  simp [words, word.toList_ne_nil]

end Text

theorem Keyword.isWord_word (keyword : Keyword) : Text.IsWord keyword.word := by
  cases keyword <;> decide +kernel

namespace Phrase

def name? (phrase : Phrase) : Option String :=
  match phrase.parse with
  | .ok (some statement) => statement.operand?
  | _ => none

def Spells (phrase : Phrase) (statement : Statement String) : Prop :=
  phrase.isSkipped = false ∧
    phrase.words = statement.keyword.word :: statement.operand?.toList

theorem parse_of_spells {phrase : Phrase} {statement : Statement String}
    (spelled : phrase.Spells statement) : phrase.parse = .ok (some statement) := by
  obtain ⟨kept, words⟩ := spelled
  have made : Statement.make? statement.keyword statement.operand?.toList = some statement :=
    Statement.make?_eq_some_iff.2 ⟨rfl, rfl⟩
  have arity := statement.takesOperand_keyword
  cases operand : statement.operand? <;>
    simp_all [parse, Keyword.ofWord?_word]

/-- All that parsing can give: nothing for a skipped phrase, the statement that the words
spell, or a fault in the phrase itself. -/
theorem parse_cases (phrase : Phrase) :
    (phrase.isSkipped = true ∧ phrase.parse = .ok none) ∨
      (∃ statement, phrase.Spells statement ∧ phrase.parse = .ok (some statement)) ∨
      (phrase.isSkipped = false ∧
        ∃ detail, phrase.parse = .error (phrase.fault .badStatement detail)) := by
  cases skipped : phrase.isSkipped with
  | true => simp [parse, skipped]
  | false =>
      right
      cases spelled : phrase.words.head?.bind Keyword.ofWord? with
      | none => exact .inr ⟨rfl, .unknownInstruction, by simp [parse, skipped, spelled]⟩
      | some keyword =>
          by_cases arity : phrase.words.tail.length = if keyword.takesOperand then 1 else 0
          · obtain ⟨statement, made⟩ := Statement.make?_of_arity arity
            obtain ⟨rfl, operands⟩ := Statement.make?_eq_some_iff.1 made
            obtain ⟨first, head, word⟩ := Option.bind_eq_some_iff.1 spelled
            rw [Keyword.ofWord?_eq_some_iff] at word
            obtain ⟨rest, words⟩ := List.head?_eq_some_iff.1 head
            have spells : phrase.Spells statement := by
              refine ⟨skipped, ?_⟩
              rw [← operands, word, words]
              rfl
            exact .inl ⟨statement, spells, parse_of_spells spells⟩
          · refine .inr ⟨rfl, ?_⟩
            by_cases short : phrase.words.tail.length < if keyword.takesOperand then 1 else 0
            · exact ⟨.missingOperand, by simp only [parse, skipped, spelled, if_pos short]; rfl⟩
            · have long : (if keyword.takesOperand then 1 else 0) < phrase.words.tail.length := by
                omega
              exact ⟨.unexpectedOperand, by
                simp only [parse, skipped, spelled, if_neg short, if_pos long]; rfl⟩

theorem parse_eq_none_iff {phrase : Phrase} :
    phrase.parse = .ok none ↔ phrase.isSkipped = true := by
  rcases parse_cases phrase with ⟨skipped, parsed⟩ | ⟨_, ⟨kept, _⟩, parsed⟩ | ⟨kept, _, parsed⟩
  · simp [skipped, parsed]
  · simp [kept, parsed]
  · simp [kept, parsed]

theorem keyword?_of_skipped {phrase : Phrase} (skipped : phrase.isSkipped = true) :
    phrase.keyword? = none := by
  simp [keyword?, skipped]

theorem Spells.keyword? {phrase : Phrase} {statement : Statement String}
    (spelled : phrase.Spells statement) : phrase.keyword? = some statement.keyword := by
  simp [Phrase.keyword?, spelled.1, spelled.2, Keyword.ofWord?_word]

theorem Spells.operand? {phrase : Phrase} {statement : Statement String}
    (spelled : phrase.Spells statement) : phrase.operand? = statement.operand? := by
  cases operand : statement.operand? <;>
    simp [Phrase.operand?, spelled.1, spelled.2, operand]

theorem Spells.name? {phrase : Phrase} {statement : Statement String}
    (spelled : phrase.Spells statement) : phrase.name? = statement.operand? := by
  simp [Phrase.name?, parse_of_spells spelled]

theorem isSkipped_word_append (line : Nat) (keyword : Keyword) (rest : String) :
    isSkipped ⟨line, keyword.word ++ rest⟩ = false := by
  cases keyword <;>
    simp [isSkipped, isBlank, isComment, Keyword.word]

theorem spells_render {statement : Statement String}
    (named : ∀ name, statement.operand? = some name → Text.IsWord name) (line : Nat) :
    Spells ⟨line, statement.render id⟩ statement := by
  cases operand : statement.operand? with
  | none =>
      have bare := isSkipped_word_append line statement.keyword ""
      rw [String.append_empty] at bare
      simp only [Spells, Statement.render, operand, words, Option.toList_none]
      rw [Text.words_toList statement.keyword.isWord_word]
      exact ⟨bare, by simp⟩
  | some name =>
      have text : (statement.keyword.word ++ (" " ++ name)).toList =
          statement.keyword.word.toList ++ ' ' :: name.toList := by simp
      simp only [Spells, Statement.render, operand, words, Option.toList_some, id]
      rw [String.append_assoc, text, Text.words_append_space statement.keyword.isWord_word,
        Text.words_toList (named name operand)]
      exact ⟨isSkipped_word_append line statement.keyword _, by simp⟩

end Phrase

end Abacus
