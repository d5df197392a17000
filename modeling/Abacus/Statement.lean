import Abacus.Phrase

/-!
Statements over any kind of operand: variable names after parsing, slot numbers after
linking. Main statement: a statement is what its keyword and operands make.
-/

namespace Abacus

inductive Statement (ν : Type) where
  | clear (operand : ν)
  | incr (operand : ν)
  | decr (operand : ν)
  | whileNonzero (operand : ν)
  | endWhile
  | ifNonzero (operand : ν)
  | elifNonzero (operand : ν)
  | elseBranch
  | endIf
deriving DecidableEq

namespace Statement

variable {ν μ : Type}

def keyword : Statement ν → Keyword
  | .clear _ => .clear
  | .incr _ => .incr
  | .decr _ => .decr
  | .whileNonzero _ => .whileNonzero
  | .endWhile => .endWhile
  | .ifNonzero _ => .ifNonzero
  | .elifNonzero _ => .elifNonzero
  | .elseBranch => .elseBranch
  | .endIf => .endIf

def operand? : Statement ν → Option ν
  | .clear operand | .incr operand | .decr operand | .whileNonzero operand
  | .ifNonzero operand | .elifNonzero operand => some operand
  | .endWhile | .elseBranch | .endIf => none

def map (f : ν → μ) : Statement ν → Statement μ
  | .clear operand => .clear (f operand)
  | .incr operand => .incr (f operand)
  | .decr operand => .decr (f operand)
  | .whileNonzero operand => .whileNonzero (f operand)
  | .endWhile => .endWhile
  | .ifNonzero operand => .ifNonzero (f operand)
  | .elifNonzero operand => .elifNonzero (f operand)
  | .elseBranch => .elseBranch
  | .endIf => .endIf

def make? : Keyword → List ν → Option (Statement ν)
  | .clear, [operand] => some (.clear operand)
  | .incr, [operand] => some (.incr operand)
  | .decr, [operand] => some (.decr operand)
  | .whileNonzero, [operand] => some (.whileNonzero operand)
  | .endWhile, [] => some .endWhile
  | .ifNonzero, [operand] => some (.ifNonzero operand)
  | .elifNonzero, [operand] => some (.elifNonzero operand)
  | .elseBranch, [] => some .elseBranch
  | .endIf, [] => some .endIf
  | _, _ => none

def render (operandText : ν → String) (statement : Statement ν) : String :=
  match statement.operand? with
  | some operand => statement.keyword.word ++ " " ++ operandText operand
  | none => statement.keyword.word

@[simp] theorem keyword_map (f : ν → μ) (statement : Statement ν) :
    (statement.map f).keyword = statement.keyword := by
  cases statement <;> rfl

@[simp] theorem operand?_map (f : ν → μ) (statement : Statement ν) :
    (statement.map f).operand? = statement.operand?.map f := by
  cases statement <;> rfl

theorem takesOperand_keyword (statement : Statement ν) :
    statement.keyword.takesOperand = statement.operand?.isSome := by
  cases statement <;> rfl

theorem make?_eq_some_iff {keyword : Keyword} {operands : List ν} {statement : Statement ν} :
    make? keyword operands = some statement ↔
      keyword = statement.keyword ∧ operands = statement.operand?.toList := by
  constructor
  · intro made
    unfold make? at made
    split at made <;> simp at made <;> subst made <;> simp [Statement.keyword, operand?]
  · rintro ⟨rfl, rfl⟩
    cases statement <;> rfl

end Statement

/-- The statement a phrase means; nothing for a blank or a comment. -/
def Phrase.parse (phrase : Phrase) : Except Fault (Option (Statement String)) :=
  let malformed (detail : Fault.Detail) := Except.error (phrase.fault .badStatement detail)
  if phrase.isSkipped then .ok none
  else
    let words := phrase.words
    match words.head?.bind Keyword.ofWord? with
    | none => malformed .unknownInstruction
    | some keyword =>
      let operands := words.tail
      let expected := if keyword.takesOperand then 1 else 0
      if operands.length < expected then malformed .missingOperand
      else if expected < operands.length then malformed .unexpectedOperand
      else
        match Statement.make? keyword operands with
        | some statement => .ok (some statement)
        | none => .error (phrase.fault .internal .operandMismatch)

end Abacus
