import Abacus.Bytecode.Record
import Abacus.Text.Decimal
import Abacus.Text.Utf8

/-!
Compiled programs and their files. A file holds four magic bytes, the number of variables,
the length of the code, the records, and a table of names: for each a slot in decimal, an
equals sign, the name and a semicolon.
-/

namespace Abacus.Bytecode

def codeLimit : Nat := 4294967295

/-- A compiled program. The length of its code fits its field in the file. -/
structure Container where
  varCount : UInt16
  code : List Record
  symbols : List (Slot × String)
  code_fits : code.length * Record.width ≤ codeLimit
deriving DecidableEq

def magic : List UInt8 := [0x42, 0x4F, 0x4E, 0x45]

def badFormat (detail : Fault.Detail) : Fault := { kind := .badFormat, detail }

namespace Container

def make (varCount : UInt16) (code : List Record) (symbols : List (Slot × String)) :
    Except Fault Container :=
  if fits : code.length * Record.width ≤ codeLimit then .ok ⟨varCount, code, symbols, fits⟩
  else .error { kind := .overflow, detail := .programTooLarge }

def codeLength (container : Container) : Nat := container.code.length * Record.width

/-- The first name given to a slot. -/
def symbol? (container : Container) (slot : Slot) : Option String :=
  container.symbols.lookup slot

def symbolBytes (symbol : Slot × String) : List UInt8 :=
  Text.utf8 (toString symbol.1.toNat ++ "=" ++ symbol.2 ++ ";")

def encode (container : Container) : List UInt8 :=
  magic ++ bytes16 container.varCount ++ bytes32 container.codeLength.toUInt32 ++
    container.code.flatMap Record.bytes ++ container.symbols.flatMap symbolBytes

/-- Reads `count` records from the front of the bytes; `code` holds those before, last first. -/
def readCode : (count : Nat) → (bytes : List UInt8) → (code : List Record) →
    Except Fault.Detail (List Record)
  | 0, _, code => .ok code.reverse
  | count + 1, bytes, code =>
    match Record.read (bytes.take Record.width) with
    | .ok record => readCode count (bytes.drop Record.width) (record :: code)
    | .error detail => .error detail

def readSymbol (item : List Char) : Except Fault.Detail (Slot × String) :=
  match item.dropWhile (· != '=') with
  | [] => .error .malformedSymbol
  | _ :: name =>
    match Text.readDecimal? 65535 (item.takeWhile (· != '=')) with
    | some slot => .ok (slot.toUInt16, String.ofList name)
    | none => .error .malformedSymbol

def readSymbols (bytes : List UInt8) : Except Fault.Detail (List (Slot × String)) :=
  match Text.ofUtf8? bytes with
  | none => .error .symbolsNotText
  | some text =>
    let items := text.toList.splitOn ';'
    if items.getLast? = some [] then items.dropLast.mapM readSymbol
    else .error .unterminatedSymbol

theorem length_readCode {count : Nat} {bytes : List UInt8} {code result : List Record}
    (decoded : readCode count bytes code = .ok result) :
    result.length = code.length + count := by
  induction count generalizing bytes code with
  | zero =>
    simp only [readCode, Except.ok.injEq] at decoded
    simp [← decoded]
  | succ count induction =>
    simp only [readCode] at decoded
    split at decoded
    · have := induction decoded
      simp only [List.length_cons] at this
      omega
    · cases decoded

def decode : List UInt8 → Except Fault Container
  | magic₃ :: magic₂ :: magic₁ :: magic₀ :: count₁ :: count₀ ::
      length₃ :: length₂ :: length₁ :: length₀ :: rest =>
    let length := (word32 length₃ length₂ length₁ length₀).toNat
    if [magic₃, magic₂, magic₁, magic₀] ≠ magic then .error (badFormat .notCompiled)
    else if length % Record.width ≠ 0 then .error (badFormat .codeLengthNotWhole)
    else if rest.length < length then .error (badFormat .truncatedCode)
    else
      match decoded : readCode (length / Record.width) rest [] with
      | .error detail => .error (badFormat detail)
      | .ok code =>
        match readSymbols (rest.drop length) with
        | .error detail => .error (badFormat detail)
        | .ok symbols =>
          .ok {
            varCount := word16 count₁ count₀, code, symbols,
            code_fits := by
              have size := length_readCode decoded
              have bounded := (word32 length₃ length₂ length₁ length₀).toNat_lt
              simp only [List.length_nil, Nat.zero_add] at size
              rw [size]
              exact Nat.le_trans (Nat.div_mul_le_self _ _) (Nat.le_of_lt_succ bounded) }
  | _ => .error (badFormat .notCompiled)

def listingLine (container : Container) (offset : Nat) (record : Record) : String :=
  let line := Text.alignRight 8 (toString offset) ++ "  " ++ record.render
  match container.symbol? record.slot with
  | some name => line ++ "  ; " ++ name ++ "\n"
  | none => line ++ "\n"

def listing (container : Container) : String :=
  let head := "VARIABLES " ++ toString container.varCount.toNat ++ "\n" ++
    "CODE " ++ toString container.codeLength ++ " BYTES\n"
  container.code.zipIdx.foldl
    (fun text line => text ++ container.listingLine (line.2 * Record.width) line.1) head

end Container

end Abacus.Bytecode
