/-!
What can go wrong, where, and the wording of the report. A fault names its kind, the
place it was found and a detail; all wording is in this module.
-/

namespace Abacus

namespace Fault

inductive Kind where
  | interrupted
  | badStatement
  | overflow
  | outOfMemory
  | endWithoutWhile
  | elseWithoutIf
  | ifWithoutEndif
  | badFormat
  | internal
deriving DecidableEq

/-- The number that stands for a kind in reports read by other programs. -/
def Kind.number : Kind → Nat
  | .interrupted => 1
  | .badStatement => 2
  | .overflow => 6
  | .outOfMemory => 7
  | .endWithoutWhile => 30
  | .elseWithoutIf => 31
  | .ifWithoutEndif => 32
  | .badFormat => 40
  | .internal => 51

def Kind.title : Kind → String
  | .interrupted => "BREAK"
  | .badStatement => "SYNTAX ERROR"
  | .overflow => "OVERFLOW"
  | .outOfMemory => "OUT OF MEMORY"
  | .endWithoutWhile => "END WITHOUT WHILE"
  | .elseWithoutIf => "ELSE WITHOUT IF"
  | .ifWithoutEndif => "IF WITHOUT ENDIF"
  | .badFormat => "BAD FORMAT"
  | .internal => "INTERNAL ERROR"

inductive Place where
  | unknown
  | line (number : Nat)
  | statement (line : Nat) (text : String)
deriving DecidableEq

def Place.line? : Place → Option Nat
  | .unknown => none
  | .line number => some number
  | .statement number _ => some number

def Place.text? : Place → Option String
  | .statement _ text => some text
  | _ => none

inductive Detail where
  | none
  | unknownInstruction
  | missingOperand
  | unexpectedOperand
  | operandMismatch
  | tooManyVariables
  | nestingTooDeep
  | endifWithoutIf
  | noAlwaysSlot
  | programTooLarge
  | notCompiled
  | codeLengthNotWhole
  | truncatedCode
  | truncatedRecord
  | unknownOpcode
  | symbolsNotText
  | unterminatedSymbol
  | malformedSymbol
  | remark (text : String)
deriving DecidableEq

def Detail.text : Detail → String
  | .none => ""
  | .unknownInstruction => "UNKNOWN INSTRUCTION"
  | .missingOperand => "MISSING OPERAND"
  | .unexpectedOperand => "UNEXPECTED OPERAND"
  | .operandMismatch => "OPERAND MISMATCH"
  | .tooManyVariables => "TOO MANY VARIABLES"
  | .nestingTooDeep => "NESTING TOO DEEP"
  | .endifWithoutIf => "ENDIF WITHOUT IF"
  | .noAlwaysSlot => "NO ALWAYS SLOT"
  | .programTooLarge => "PROGRAM TOO LARGE"
  | .notCompiled => "NOT A COMPILED PROGRAM"
  | .codeLengthNotWhole => "CODE LENGTH NOT A MULTIPLE OF 7"
  | .truncatedCode => "TRUNCATED CODE"
  | .truncatedRecord => "TRUNCATED RECORD"
  | .unknownOpcode => "UNKNOWN OPCODE"
  | .symbolsNotText => "SYMBOL TABLE NOT UTF-8"
  | .unterminatedSymbol => "UNTERMINATED SYMBOL"
  | .malformedSymbol => "MALFORMED SYMBOL"
  | .remark text => text

end Fault

structure Fault where
  kind : Fault.Kind
  place : Fault.Place := .unknown
  detail : Fault.Detail := .none
deriving DecidableEq

namespace Fault

def message (fault : Fault) : String :=
  let line := match fault.place.line? with
    | some number => " IN " ++ toString number
    | none => ""
  let statement := match fault.place.text? with
    | some text => ": " ++ text
    | none => ""
  let detail := fault.detail.text
  fault.kind.title ++ line ++ statement ++ (if detail = "" then "" else "; " ++ detail)

end Fault

end Abacus
