import Abacus.Proofs.LowerText
import Abacus.Proofs.SourceNames

/-!
The written forms of statements. A phrase that is neither blank nor a comment means a statement
exactly when its words are one of nine forms, and is refused otherwise, for a reason that its words
decide. Main statement: parsing reads these forms and no others, and a statement that was read is
read again from its written form.
-/

namespace Abacus

namespace Statement

inductive Written : List String → Statement String → Prop
  | clear (name : String) : Written ["clear", name] (.clear name)
  | incr (name : String) : Written ["incr", name] (.incr name)
  | decr (name : String) : Written ["decr", name] (.decr name)
  | whileNonzero (name : String) : Written ["while", name] (.whileNonzero name)
  | endWhile : Written ["end"] .endWhile
  | ifNonzero (name : String) : Written ["if", name] (.ifNonzero name)
  | elifNonzero (name : String) : Written ["elif", name] (.elifNonzero name)
  | elseBranch : Written ["else"] .elseBranch
  | endIf : Written ["endif"] .endIf

theorem written_iff {words : List String} {statement : Statement String} :
    Written words statement ↔ words = statement.keyword.word :: statement.operand?.toList := by
  constructor
  · intro written
    cases written <;> rfl
  · intro shape
    subst shape
    cases statement <;> constructor

def namingWords : List String := ["clear", "incr", "decr", "while", "if", "elif"]

def bareWords : List String := ["end", "else", "endif"]

/-- The first word, if there is one, is no keyword. -/
def StartsUnknown (words : List String) : Prop :=
  ∀ first ∈ words.head?, first ∉ namingWords ++ bareWords

def LacksName (words : List String) : Prop := ∃ first ∈ namingWords, words = [first]

instance (words : List String) : Decidable (StartsUnknown words) :=
  inferInstanceAs (Decidable (∀ first ∈ words.head?, first ∉ namingWords ++ bareWords))

instance (words : List String) : Decidable (LacksName words) :=
  inferInstanceAs (Decidable (∃ first ∈ namingWords, words = [first]))

def complaint (words : List String) : String :=
  if StartsUnknown words then "UNKNOWN INSTRUCTION"
  else if LacksName words then "MISSING OPERAND"
  else "UNEXPECTED OPERAND"

theorem word_mem_namingWords_iff {keyword : Keyword} :
    keyword.word ∈ namingWords ↔ keyword.takesOperand = true := by
  cases keyword <;> decide

theorem mem_keywords_iff {word : String} :
    word ∈ namingWords ++ bareWords ↔ ∃ keyword : Keyword, keyword.word = word := by
  constructor
  · intro member
    have spelled : ∀ word ∈ namingWords ++ bareWords,
        ∃ keyword ∈ Keyword.all, keyword.word = word := by decide
    obtain ⟨keyword, _, same⟩ := spelled word member
    exact ⟨keyword, same⟩
  · intro spelled
    obtain ⟨keyword, rfl⟩ := spelled
    cases keyword <;> decide

theorem startsUnknown_iff {words : List String} :
    StartsUnknown words ↔ words.head?.bind Keyword.ofWord? = none := by
  unfold StartsUnknown
  rw [Option.bind_eq_none_iff]
  apply forall₂_congr
  intro first _
  rw [mem_keywords_iff, not_exists, Option.eq_none_iff_forall_ne_some]
  apply forall_congr'
  intro keyword
  rw [ne_eq, Keyword.ofWord?_eq_some_iff]

theorem lacksName_iff {keyword : Keyword} {rest : List String} :
    LacksName (keyword.word :: rest) ↔
      rest.length < if keyword.takesOperand then 1 else 0 := by
  unfold LacksName
  constructor
  · intro lacks
    obtain ⟨first, member, shape⟩ := lacks
    rw [List.cons.injEq] at shape
    rw [← shape.1, word_mem_namingWords_iff] at member
    rw [if_pos member, shape.2]
    exact Nat.zero_lt_one
  · intro short
    split at short
    · rename_i takes
      have alone := List.length_eq_zero_iff.1 (Nat.lt_one_iff.1 short)
      exact ⟨keyword.word, word_mem_namingWords_iff.2 takes, by rw [alone]⟩
    · exact absurd short (Nat.not_lt_zero _)

theorem complaint_of_keyword (keyword : Keyword) (rest : List String) :
    complaint (keyword.word :: rest) =
      if rest.length < (if keyword.takesOperand then 1 else 0) then "MISSING OPERAND"
      else "UNEXPECTED OPERAND" := by
  have known : ¬ StartsUnknown (keyword.word :: rest) := by
    rw [startsUnknown_iff, List.head?_cons, Option.bind_some, Keyword.ofWord?_word]
    exact Option.some_ne_none keyword
  unfold complaint
  rw [if_neg known, if_congr lacksName_iff rfl rfl]

end Statement

namespace Phrase

variable {phrase : Phrase} {statement : Statement String}

theorem spells_of_parse (parsed : phrase.parse = .ok (some statement)) :
    phrase.Spells statement := by
  rcases parse_cases phrase with ⟨_, other⟩ | ⟨meant, spelled, other⟩ | ⟨_, _, other⟩
  · rw [other] at parsed
    cases parsed
  · rw [other] at parsed
    cases parsed
    exact spelled
  · rw [other] at parsed
    cases parsed

theorem parse_iff_written (kept : phrase.isSkipped = false) :
    phrase.parse = .ok (some statement) ↔ Statement.Written phrase.words statement := by
  rw [Statement.written_iff]
  constructor
  · intro parsed
    exact (spells_of_parse parsed).2
  · intro spelled
    exact parse_of_spells ⟨kept, spelled⟩

/-- Parsing after the keyword: too few words, too many, or a statement. -/
theorem parse_of_keyword (kept : phrase.isSkipped = false) {keyword : Keyword} {rest : List String}
    (words : phrase.words = keyword.word :: rest) :
    phrase.parse =
      if rest.length < (if keyword.takesOperand then 1 else 0) then
        .error (phrase.fault .badStatement .missingOperand)
      else if (if keyword.takesOperand then 1 else 0) < rest.length then
        .error (phrase.fault .badStatement .unexpectedOperand)
      else
        match Statement.make? keyword rest with
        | some statement => .ok (some statement)
        | none => .error (phrase.fault .internal .operandMismatch) := by
  simp only [parse, kept, words, List.head?_cons, Option.bind_some, Keyword.ofWord?_word,
    List.tail_cons]
  rfl

/-- A phrase that is no statement is refused, and its words say why. -/
theorem parse_of_not_written (kept : phrase.isSkipped = false)
    (unwritten : ∀ statement, ¬ Statement.Written phrase.words statement) :
    ∃ detail, phrase.parse = .error (phrase.fault .badStatement detail) ∧
      detail.text = Statement.complaint phrase.words := by
  cases spelled : phrase.words.head?.bind Keyword.ofWord? with
  | none =>
      refine ⟨.unknownInstruction, by simp [parse, kept, spelled], ?_⟩
      unfold Statement.complaint
      rw [if_pos (Statement.startsUnknown_iff.2 spelled)]
      rfl
  | some keyword =>
      obtain ⟨first, head, word⟩ := Option.bind_eq_some_iff.1 spelled
      rw [Keyword.ofWord?_eq_some_iff] at word
      obtain ⟨rest, words⟩ := List.head?_eq_some_iff.1 head
      rw [← word] at words
      rw [parse_of_keyword kept words, words, Statement.complaint_of_keyword]
      by_cases short : rest.length < if keyword.takesOperand then 1 else 0
      · exact ⟨.missingOperand, if_pos short, (if_pos short).symm⟩
      · -- With as many words as the keyword wants the phrase would be a statement.
        have long : (if keyword.takesOperand then 1 else 0) < rest.length := by
          by_contra exact
          have arity : rest.length = if keyword.takesOperand then 1 else 0 := by omega
          obtain ⟨statement, made⟩ := Statement.make?_of_arity arity
          obtain ⟨rfl, operands⟩ := Statement.make?_eq_some_iff.1 made
          apply unwritten statement
          rw [Statement.written_iff, words, operands]
        refine ⟨.unexpectedOperand, ?_, (if_neg short).symm⟩
        rw [if_neg short, if_pos long]

end Phrase

namespace Text

structure IsPlainWord (name : String) : Prop where
  word : IsWord name
  plain : ∀ c ∈ name.toList, isCapital c = false

variable {name : String}

theorem IsPlainWord.head (plain : IsPlainWord name) (rest : List Char) :
    ∀ c ∈ (name.toList ++ rest).head?, isBlank c = false := by
  intro c member
  rw [List.head?_append_of_ne_nil _ plain.word.toList_ne_nil] at member
  exact plain.word.2 c (List.mem_of_mem_head? member)

theorem IsPlainWord.last (plain : IsPlainWord name) (front : List Char) :
    ∀ c ∈ (front ++ name.toList).getLast?, isBlank c = false := by
  intro c member
  rw [List.getLast?_append_of_ne_nil _ plain.word.toList_ne_nil] at member
  exact plain.word.2 c (List.mem_of_mem_getLast? member)

theorem isPlainWord_of_mem_words {text word : List Char} (member : word ∈ words (lower text)) :
    IsPlainWord (String.ofList word) := by
  refine ⟨⟨?_, ?_⟩, ?_⟩
  · intro empty
    apply ne_nil_of_mem_words member
    rw [← String.toList_ofList (l := word), empty]
    rfl
  · rw [String.toList_ofList]
    exact isBlank_of_mem_words member
  · intro c inside
    rw [String.toList_ofList] at inside
    exact isCapital_of_mem_lower (mem_of_mem_words member inside)

end Text

theorem Keyword.isPlainWord (keyword : Keyword) : Text.IsPlainWord keyword.word := by
  have small : ∀ c ∈ keyword.word.toList, Text.inRanges Text.plainSmalls c.toNat = true := by
    rw [← List.all_eq_true]
    cases keyword <;> decide
  refine ⟨keyword.isWord_word, ?_⟩
  intro c member
  exact (Text.apart_of_isSmall (Text.isSmall_of_plain (small c member))).1

namespace Phrase

variable {statement : Statement String}

/-- The written form of a statement is trimmed and in lower case already. -/
theorem ofRaw_render (named : ∀ name, statement.operand? = some name → Text.IsPlainWord name)
    (line : Nat) : ofRaw line (statement.render id).toList = ⟨line, statement.render id⟩ := by
  have word := statement.keyword.isPlainWord
  unfold ofRaw Statement.render
  cases operand : statement.operand? with
  | none =>
      have trimmed := Text.trim_eq_self (word.head []) (by simpa using word.last [])
      rw [List.append_nil] at trimmed
      rw [trimmed, Text.lower_of_plain word.plain, String.ofList_toList]
  | some name =>
      have plain := named name operand
      have shape : (statement.keyword.word ++ " " ++ id name).toList =
          statement.keyword.word.toList ++ ' ' :: name.toList := by simp
      have trimmed : Text.trim (statement.keyword.word.toList ++ ' ' :: name.toList) =
          statement.keyword.word.toList ++ ' ' :: name.toList := by
        apply Text.trim_eq_self (word.head _)
        have last := plain.last (statement.keyword.word.toList ++ [' '])
        rwa [List.append_assoc, List.singleton_append] at last
      have white : Text.isBlank ' ' = true := by decide
      have lowered := Text.lower_append_blank white statement.keyword.word.toList name.toList
      dsimp only
      rw [shape, trimmed, lowered, Text.lower_of_plain word.plain, Text.lower_of_plain plain.plain,
        ← shape, String.ofList_toList]

theorem isPlainWord_of_parse {line : Nat} {raw : List Char}
    (parsed : (ofRaw line raw).parse = .ok (some statement)) {name : String}
    (operand : statement.operand? = some name) : Text.IsPlainWord name := by
  have member : name ∈ (ofRaw line raw).words := by
    rw [(spells_of_parse parsed).2, operand]
    simp
  obtain ⟨word, inside, rfl⟩ := List.mem_map.1 member
  rw [ofRaw, String.toList_ofList] at inside
  exact Text.isPlainWord_of_mem_words inside

theorem parse_render {line : Nat} {raw : List Char}
    (parsed : (ofRaw line raw).parse = .ok (some statement)) (other : Nat) :
    (ofRaw other (statement.render id).toList).parse = .ok (some statement) := by
  have named : ∀ name, statement.operand? = some name → Text.IsPlainWord name :=
    fun name operand => isPlainWord_of_parse parsed operand
  rw [ofRaw_render named]
  apply parse_of_spells
  apply spells_render
  intro name operand
  exact (named name operand).word

/-- A phrase that is not skipped means the statement that its words are the written form of; if
they are no written form, it is refused as a bad statement, with its line, its text and a complaint
that its words decide. And a statement that was read from a piece of source is read again, on any
line, from its own written form. -/
theorem parse_reads_written_forms {phrase : Phrase} (kept : phrase.isSkipped = false) :
    (∀ statement, phrase.parse = .ok (some statement) ↔
        Statement.Written phrase.words statement) ∧
      ((∀ statement, ¬ Statement.Written phrase.words statement) →
        ∃ detail, phrase.parse =
            .error ⟨.badStatement, .statement phrase.line phrase.text, detail⟩ ∧
          detail.text = Statement.complaint phrase.words) ∧
      ∀ raw statement, phrase = ofRaw phrase.line raw → phrase.parse = .ok (some statement) →
        ∀ line, (ofRaw line (statement.render id).toList).parse = .ok (some statement) := by
  refine ⟨?_, ?_, ?_⟩
  · intro statement
    exact parse_iff_written kept
  · intro unwritten
    exact parse_of_not_written kept unwritten
  · intro raw statement made parsed line
    rw [made] at parsed
    exact parse_render parsed line

/-- A loop over a name with a capital sigma, a dotted capital and signs in it. -/
def sigmaLoop : Phrase := ofRaw 7 " WHILE\u2003ΑΣ#=İ\n".toList

def namedEnd : Phrase := ofRaw 3 "END x".toList

theorem parse_reads_sigmaLoop_not_namedEnd :
    sigmaLoop.isSkipped = false ∧
      sigmaLoop.parse = .ok (some (.whileNonzero "ας#=i̇")) ∧
      (∀ line, (ofRaw line "while ας#=i̇".toList).parse =
        .ok (some (.whileNonzero "ας#=i̇"))) ∧
      namedEnd.isSkipped = false ∧
      ∃ detail, namedEnd.parse = .error ⟨.badStatement, .statement 3 "end x", detail⟩ ∧
        detail.text = "UNEXPECTED OPERAND" := by
  have kept : sigmaLoop.isSkipped = false := by decide +kernel
  have words : sigmaLoop.words = ["while", "ας#=i̇"] := by decide +kernel
  have rendered : (Statement.whileNonzero "ας#=i̇").render id = "while ας#=i̇" := by decide +kernel
  have keptEnd : namedEnd.isSkipped = false := by decide +kernel
  have wordsEnd : namedEnd.words = ["end", "x"] := by decide +kernel
  have textEnd : namedEnd.text = "end x" := by decide +kernel
  have unwritten : ∀ statement, ¬ Statement.Written namedEnd.words statement := by
    intro statement
    rw [wordsEnd, Statement.written_iff]
    cases statement <;> simp [Statement.keyword, Statement.operand?, Keyword.word]
  obtain ⟨reads, _, again⟩ := parse_reads_written_forms kept
  obtain ⟨_, refuses, _⟩ := parse_reads_written_forms keptEnd
  have parsed : sigmaLoop.parse = .ok (some (.whileNonzero "ας#=i̇")) := by
    rw [reads, words]
    exact .whileNonzero _
  have reread := again _ _ rfl parsed
  rw [rendered] at reread
  obtain ⟨detail, fault, text⟩ := refuses unwritten
  rw [textEnd] at fault
  refine ⟨kept, parsed, reread, keptEnd, detail, fault, ?_⟩
  rw [text, wordsEnd]
  decide +kernel

end Phrase

end Abacus
