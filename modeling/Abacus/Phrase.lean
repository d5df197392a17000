import Abacus.Fault
import Abacus.Keyword
import Abacus.Text.LowerCase

/-!
A phrase is one statement of a source text before it is understood: the line it starts on
and its text, without blank ends and in lower case. Blank phrases and comments are phrases
too; they are skipped wherever a program is read.
-/

namespace Abacus

structure Phrase where
  line : Nat
  text : String
deriving DecidableEq

namespace Phrase

def ofRaw (line : Nat) (raw : List Char) : Phrase :=
  ⟨line, String.ofList (Text.lower (Text.trim raw))⟩

def isBlank (phrase : Phrase) : Bool := phrase.text == ""

def isComment (phrase : Phrase) : Bool := phrase.text.toList.head? == some '#'

def isSkipped (phrase : Phrase) : Bool := phrase.isBlank || phrase.isComment

def words (phrase : Phrase) : List String :=
  (Text.words phrase.text.toList).map String.ofList

def keyword? (phrase : Phrase) : Option Keyword :=
  if phrase.isSkipped then none else phrase.words.head?.bind Keyword.ofWord?

def operand? (phrase : Phrase) : Option String :=
  if phrase.isSkipped then none else phrase.words[1]?

def place (phrase : Phrase) : Fault.Place := .statement phrase.line phrase.text

def fault (phrase : Phrase) (kind : Fault.Kind) (detail : Fault.Detail) : Fault :=
  ⟨kind, phrase.place, detail⟩

end Phrase

end Abacus
