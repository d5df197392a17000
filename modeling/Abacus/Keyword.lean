/-!
The nine keywords, their spelling, and the two groups that matter to nesting.
-/

namespace Abacus

inductive Keyword where
  | clear
  | incr
  | decr
  | whileNonzero
  | endWhile
  | ifNonzero
  | elifNonzero
  | elseBranch
  | endIf
deriving DecidableEq

namespace Keyword

def all : List Keyword :=
  [.clear, .incr, .decr, .whileNonzero, .endWhile, .ifNonzero, .elifNonzero, .elseBranch, .endIf]

def word : Keyword → String
  | .clear => "clear"
  | .incr => "incr"
  | .decr => "decr"
  | .whileNonzero => "while"
  | .endWhile => "end"
  | .ifNonzero => "if"
  | .elifNonzero => "elif"
  | .elseBranch => "else"
  | .endIf => "endif"

/-- The keyword spelled by a word. Only lower case is a spelling. -/
def ofWord? (word : String) : Option Keyword := all.find? (·.word == word)

def takesOperand : Keyword → Bool
  | .clear | .incr | .decr | .whileNonzero | .ifNonzero | .elifNonzero => true
  | .endWhile | .elseBranch | .endIf => false

def opensBlock : Keyword → Bool
  | .ifNonzero | .whileNonzero => true
  | _ => false

def closesBlock : Keyword → Bool
  | .endIf | .endWhile => true
  | _ => false

/-- The keywords at which an untaken branch ends. -/
def branchEnds : List Keyword := [.elifNonzero, .elseBranch, .endIf]

def chainEnds : List Keyword := [.endIf]

theorem ofWord?_word (keyword : Keyword) : ofWord? keyword.word = some keyword := by
  cases keyword <;> decide

theorem ofWord?_eq_some_iff {word : String} {keyword : Keyword} :
    ofWord? word = some keyword ↔ keyword.word = word := by
  constructor
  · intro found
    simpa using List.find?_some found
  · rintro rfl
    exact ofWord?_word keyword

end Keyword

end Abacus
