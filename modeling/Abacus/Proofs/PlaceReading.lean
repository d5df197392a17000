import Mathlib.Data.List.TakeWhile
import Abacus.Proofs.FileFormat

/-!
Reading a file by places. Here every byte is found by its index and every part by the places where
it starts and ends, and a reading that reaches outside of what it reads has no answer. Main
statement: reading a file in this way always has an answer, which is that of `Container.decode`.
-/

namespace Abacus.Bytecode

/-- A reading that may refuse what it reads. It is `none` if it reaches outside. -/
abbrev Checked (α : Type) : Type := ExceptT Fault Option α

namespace Checked

variable {α β : Type}

def ofExcept (result : Except Fault α) : Checked α := ExceptT.mk (some result)

def refuse (detail : Fault.Detail) : Checked α := ofExcept (.error (badFormat detail))

def outside : Checked α := ExceptT.mk none

def item (items : List α) (place : Nat) : Checked α :=
  match items[place]? with
  | some found => pure found
  | none => outside

def slice (items : List α) (first last : Nat) : Checked (List α) :=
  if first ≤ last ∧ last ≤ items.length then pure ((items.take last).drop first) else outside

/-- The text from one place up to another. The places count bytes, and no character may be cut. -/
def textSlice (text : String) (first last : Nat) : Checked String := do
  match Text.ofUtf8? (← slice (Text.utf8 text) first last) with
  | some part => pure part
  | none => outside

theorem slice_left (front rest : List α) : slice (front ++ rest) 0 front.length = pure front := by
  have inside : 0 ≤ front.length ∧ front.length ≤ (front ++ rest).length :=
    ⟨Nat.zero_le _, by rw [List.length_append]; exact Nat.le_add_right _ _⟩
  rw [slice, if_pos inside, List.take_left, List.drop_zero]

theorem slice_right (front rest : List α) :
    slice (front ++ rest) front.length (front ++ rest).length = pure rest := by
  have inside : front.length ≤ (front ++ rest).length ∧
      (front ++ rest).length ≤ (front ++ rest).length :=
    ⟨by rw [List.length_append]; exact Nat.le_add_right _ _, Nat.le_refl _⟩
  rw [slice, if_pos inside, List.take_length, List.drop_left]

theorem textSlice_left (front rest : String) :
    textSlice (front ++ rest) 0 (Text.utf8 front).length = pure front := by
  rw [textSlice, Text.utf8_append, slice_left, pure_bind, Text.ofUtf8?_utf8]

theorem textSlice_right (front rest : String) :
    textSlice (front ++ rest) (Text.utf8 front).length (Text.utf8 (front ++ rest)).length =
      pure rest := by
  rw [textSlice, Text.utf8_append, slice_right, pure_bind, Text.ofUtf8?_utf8]

theorem mapM_ofExcept {ε : Type} (change : ε → Fault) {read : α → Except ε β}
    {readInside : α → Checked β}
    (same : ∀ item, readInside item = ofExcept ((read item).mapError change)) (items : List α) :
    items.mapM readInside = ofExcept ((items.mapM read).mapError change) := by
  induction items with
  | nil => rfl
  | cons item items induction =>
      rw [List.mapM_cons, List.mapM_cons, induction, same]
      cases read item with
      | error fault => rfl
      | ok result =>
          cases items.mapM read with
          | error fault => rfl
          | ok results => rfl

end Checked

open Checked

def word16At (bytes : List UInt8) (place : Nat) : Checked UInt16 :=
  return word16 (← item bytes place) (← item bytes (place + 1))

def word32At (bytes : List UInt8) (place : Nat) : Checked UInt32 :=
  return word32 (← item bytes place) (← item bytes (place + 1)) (← item bytes (place + 2))
    (← item bytes (place + 3))

def Record.readByPlace (group : List UInt8) : Checked Record :=
  if group.length ≠ width then refuse .truncatedRecord
  else do
    match Opcode.ofByte? (← item group 0) with
    | none => refuse .unknownOpcode
    | some opcode =>
        return ⟨opcode, ← word16At group 1, ← word32At group 3⟩

theorem Record.readByPlace_eq (group : List UInt8) :
    readByPlace group = ofExcept ((read group).mapError badFormat) := by
  rw [readByPlace]
  split
  · rename_i other
    unfold read
    split
    · exact absurd rfl other
    · rfl
  · rename_i same
    match group, not_not.1 same with
    | [opcode, slot₁, slot₀, target₃, target₂, target₁, target₀], _ =>
        change (match Opcode.ofByte? opcode with
          | none => _
          | some opcode => _) = _
        rw [read]
        cases Opcode.ofByte? opcode with
        | none => rfl
        | some found => rfl

namespace Container

/-- The code in groups of seven bytes, of which the last may be shorter. -/
def groups (bytes : List UInt8) : List (List UInt8) :=
  (List.range ((bytes.length + 6) / 7)).map fun index => (bytes.drop (7 * index)).take 7

def equalsPlace? (item : String) : Option Nat :=
  if '=' ∈ item.toList then
    some (Text.utf8 (String.ofList (item.toList.takeWhile (· != '=')))).length
  else none

def readSymbolByPlace (item : String) : Checked (Slot × String) :=
  match equalsPlace? item with
  | none => refuse .malformedSymbol
  | some place => do
      let numeral ← textSlice item 0 place
      let name ← textSlice item (place + 1) (Text.utf8 item).length
      match Text.readDecimal? 65535 numeral.toList with
      | some slot => return (slot.toUInt16, name)
      | none => refuse .malformedSymbol

def readSymbolsByPlace (bytes : List UInt8) : Checked (List (Slot × String)) :=
  match Text.ofUtf8? bytes with
  | none => refuse .symbolsNotText
  | some text =>
      let items := text.toList.splitOn ';'
      if items.getLast? = some [] then
        items.dropLast.mapM fun item => readSymbolByPlace (String.ofList item)
      else refuse .unterminatedSymbol

def content (container : Container) : UInt16 × List Record × List (Slot × String) :=
  (container.varCount, container.code, container.symbols)

def decodeByPlace (bytes : List UInt8) : Checked (UInt16 × List Record × List (Slot × String)) :=
  if bytes.length < 10 then refuse .notCompiled
  else do
    if (← slice bytes 0 4) ≠ magic then refuse .notCompiled
    else
      let varCount ← word16At bytes 4
      let length := (← word32At bytes 6).toNat
      if length % Record.width ≠ 0 then refuse .codeLengthNotWhole
      else if bytes.length < 10 + length then refuse .truncatedCode
      else
        let code ← (groups (← slice bytes 10 (10 + length))).mapM Record.readByPlace
        let symbols ← readSymbolsByPlace (← slice bytes (10 + length) bytes.length)
        return (varCount, code, symbols)

theorem groups_append {group rest : List UInt8} (full : group.length = 7) :
    groups (group ++ rest) = group :: groups rest := by
  have more : ((group ++ rest).length + 6) / 7 = (rest.length + 6) / 7 + 1 := by
    rw [List.length_append]
    omega
  rw [groups, more, List.range_succ_eq_map, List.map_cons, List.map_map, groups]
  congr 1
  · exact List.take_left' full
  · apply List.map_congr_left
    intro index _
    have later : (group ++ rest).drop (7 * (index + 1)) = rest.drop (7 * index) := by
      rw [Nat.mul_succ, Nat.add_comm, ← List.drop_drop, List.drop_left' full]
    exact congrArg (List.take 7) later

theorem readCode_eq_mapM {count : Nat} {bytes : List UInt8} {before : List Record}
    (full : 7 * count ≤ bytes.length) :
    readCode count bytes before =
      ((groups (bytes.take (7 * count))).mapM Record.read).map (before.reverse ++ ·) := by
  induction count generalizing bytes before with
  | zero => simp [readCode, groups, Except.map, pure, Except.pure]
  | succ count induction =>
      have cut : bytes.take (7 * (count + 1)) =
          bytes.take 7 ++ (bytes.drop 7).take (7 * count) := by
        rw [Nat.mul_succ, Nat.add_comm, List.take_add]
      have first : (bytes.take 7).length = 7 := by
        rw [List.length_take]
        omega
      have rest : 7 * count ≤ (bytes.drop 7).length := by
        rw [List.length_drop]
        omega
      rw [cut, groups_append first, List.mapM_cons, readCode, Record.width]
      cases Record.read (bytes.take 7) with
      | error detail => rfl
      | ok record =>
          dsimp only
          rw [induction rest]
          cases (groups ((bytes.drop 7).take (7 * count))).mapM Record.read with
          | error detail => rfl
          | ok records => simp [Except.map, bind, Except.bind, pure, Except.pure]

theorem readCode_eq_groups {length : Nat} {bytes : List UInt8} (whole : length % Record.width = 0)
    (inside : length ≤ bytes.length) :
    readCode (length / Record.width) bytes [] =
      (groups (bytes.take length)).mapM Record.read := by
  have full : 7 * (length / 7) = length := Nat.mul_div_cancel' (Nat.dvd_of_mod_eq_zero whole)
  have all : readCode (length / 7) bytes [] = _ := readCode_eq_mapM (full.trans_le inside)
  rw [Record.width, all, full]
  cases (groups (bytes.take length)).mapM Record.read with
  | error detail => rfl
  | ok records => rfl

theorem readSymbolByPlace_eq (item : List Char) :
    readSymbolByPlace (String.ofList item) = ofExcept ((readSymbol item).mapError badFormat) := by
  rw [readSymbolByPlace, equalsPlace?, String.toList_ofList]
  by_cases split : '=' ∈ item
  · obtain ⟨front, rest, rfl, free⟩ := List.eq_append_cons_of_mem split
    obtain ⟨numeral, name⟩ := Text.cut_at_sign free rest
    have cut : String.ofList (front ++ '=' :: rest) =
        String.ofList front ++ String.ofList ('=' :: rest) := String.ofList_append
    have next : String.ofList (front ++ '=' :: rest) =
        String.ofList (front ++ ['=']) ++ String.ofList rest := by
      rw [← String.ofList_append, List.append_assoc]
      rfl
    -- The sign takes one byte, so the name starts one byte after the end of the numeral.
    have place : (Text.utf8 (String.ofList front)).length + 1 =
        (Text.utf8 (String.ofList (front ++ ['=']))).length := by
      rw [String.ofList_append, Text.utf8_append, List.length_append]
      rfl
    rw [if_pos split, numeral]
    dsimp only
    rw [place, next, textSlice_right, ← next, cut, textSlice_left, pure_bind, pure_bind,
      String.toList_ofList, readSymbol, numeral, name]
    dsimp only
    cases Text.readDecimal? 65535 front with
    | none => rfl
    | some slot => rfl
  · have none : item.dropWhile (· != '=') = [] := by
      rw [List.dropWhile_eq_nil_iff]
      intro c member
      rw [bne_iff_ne]
      rintro rfl
      exact split member
    rw [if_neg split, readSymbol, none]
    rfl

theorem readSymbolsByPlace_eq (bytes : List UInt8) :
    readSymbolsByPlace bytes = ofExcept ((readSymbols bytes).mapError badFormat) := by
  rw [readSymbolsByPlace, readSymbols]
  cases Text.ofUtf8? bytes with
  | none => rfl
  | some text =>
      dsimp only
      split
      · exact mapM_ofExcept badFormat readSymbolByPlace_eq _
      · rfl

theorem map_content_decode (magic₃ magic₂ magic₁ magic₀ count₁ count₀ length₃ length₂ length₁
    length₀ : UInt8) (rest : List UInt8) :
    (decode (magic₃ :: magic₂ :: magic₁ :: magic₀ :: count₁ :: count₀ ::
        length₃ :: length₂ :: length₁ :: length₀ :: rest)).map content =
      let length := (word32 length₃ length₂ length₁ length₀).toNat
      if [magic₃, magic₂, magic₁, magic₀] ≠ magic then .error (badFormat .notCompiled)
      else if length % Record.width ≠ 0 then .error (badFormat .codeLengthNotWhole)
      else if rest.length < length then .error (badFormat .truncatedCode)
      else do
        let code ← (readCode (length / Record.width) rest []).mapError badFormat
        let symbols ← (readSymbols (rest.drop length)).mapError badFormat
        return (word16 count₁ count₀, code, symbols) := by
  unfold decode
  dsimp only
  split_ifs
  · rfl
  · rfl
  · rfl
  · split
    · rename_i detail refused
      rw [refused]
      rfl
    · rename_i code read
      conv_rhs => rw [read]
      cases readSymbols (rest.drop (word32 length₃ length₂ length₁ length₀).toNat) with
      | error detail => rfl
      | ok symbols => rfl

section Header

variable {magic₃ magic₂ magic₁ magic₀ count₁ count₀ length₃ length₂ length₁ length₀ : UInt8}
  {bytes rest : List UInt8}
  (whole : bytes = magic₃ :: magic₂ :: magic₁ :: magic₀ :: count₁ :: count₀ ::
    length₃ :: length₂ :: length₁ :: length₀ :: rest)
include whole

theorem length_of_header : bytes.length = 10 + rest.length := by
  rw [whole, Nat.add_comm]
  rfl

theorem slice_magic : slice bytes 0 4 = pure [magic₃, magic₂, magic₁, magic₀] := by
  have long := length_of_header whole
  rw [slice, if_pos ⟨by omega, by omega⟩, whole]
  rfl

theorem word16At_count : word16At bytes 4 = pure (word16 count₁ count₀) := by
  rw [whole]
  rfl

theorem word32At_length : word32At bytes 6 = pure (word32 length₃ length₂ length₁ length₀) := by
  rw [whole]
  rfl

theorem slice_code {length : Nat} (inside : length ≤ rest.length) :
    slice bytes 10 (10 + length) = pure (rest.take length) := by
  have long := length_of_header whole
  rw [slice, if_pos ⟨by omega, by omega⟩, whole, Nat.add_comm]
  rfl

theorem slice_table {length : Nat} (inside : length ≤ rest.length) :
    slice bytes (10 + length) bytes.length = pure (rest.drop length) := by
  have long := length_of_header whole
  rw [slice, if_pos ⟨by omega, by omega⟩, List.take_length, whole, Nat.add_comm]
  rfl

end Header

/-- Reading by place stays inside the file, whatever its bytes are, and finds the same. -/
theorem decodeByPlace_eq (bytes : List UInt8) :
    decodeByPlace bytes = ofExcept ((decode bytes).map content) := by
  by_cases short : bytes.length < 10
  · rw [decodeByPlace, if_pos short]
    unfold decode
    split
    · simp only [List.length_cons] at short
      omega
    · rfl
  obtain ⟨magic₃, magic₂, magic₁, magic₀, count₁, count₀, length₃, length₂, length₁, length₀, rest,
    whole⟩ := exists_header (Nat.not_lt.1 short)
  rw [decodeByPlace, if_neg short, slice_magic whole, pure_bind, word16At_count whole, pure_bind,
    word32At_length whole, pure_bind]
  have long := length_of_header whole
  rw [whole, map_content_decode, ← whole]
  generalize (word32 length₃ length₂ length₁ length₀).toNat = length
  dsimp only
  -- The checks are the same and come in the same order. Past them, both slices lie inside.
  by_cases marked : [magic₃, magic₂, magic₁, magic₀] ≠ magic
  · rw [if_pos marked, if_pos marked]
    rfl
  rw [if_neg marked, if_neg marked]
  by_cases uneven : length % Record.width ≠ 0
  · rw [if_pos uneven, if_pos uneven]
    rfl
  rw [if_neg uneven, if_neg uneven]
  by_cases truncated : rest.length < length
  · rw [if_pos truncated, if_pos (by omega)]
    rfl
  have inside : length ≤ rest.length := Nat.not_lt.1 truncated
  simp only [if_neg truncated, if_neg (by omega : ¬ bytes.length < 10 + length),
    slice_code whole inside, slice_table whole inside, pure_bind]
  rw [mapM_ofExcept badFormat Record.readByPlace_eq, readSymbolsByPlace_eq,
    readCode_eq_groups (not_not.1 uneven) inside]
  cases (groups (rest.take length)).mapM Record.read with
  | error detail => rfl
  | ok records =>
      cases readSymbols (rest.drop length) with
      | error detail => rfl
      | ok symbols => rfl

/-- The decoder accepts exactly the files of its format, finds in them what stands at their places,
refuses all other bytes as badly formatted, and never needs a place outside of the bytes. -/
theorem decode_accepts_files (bytes : List UInt8) :
    ((∃ container, decode bytes = .ok container) ↔ IsFile bytes) ∧
      (∀ container, decode bytes = .ok container ↔ IsFile bytes ∧ container.IsReadFrom bytes) ∧
      (¬ IsFile bytes → ∃ fault, decode bytes = .error fault ∧ fault.kind = .badFormat) ∧
      decodeByPlace bytes = ofExcept ((decode bytes).map content) := by
  have accepts : (∃ container, decode bytes = .ok container) ↔ IsFile bytes :=
    ⟨fun ⟨_, decoded⟩ => isFile_of_decode decoded, exists_decode⟩
  refine ⟨accepts, fun _ => decode_eq_ok_iff_isReadFrom, ?_, decodeByPlace_eq bytes⟩
  intro other
  cases answer : decode bytes with
  | ok container => exact absurd (accepts.1 ⟨container, answer⟩) other
  | error fault => exact ⟨fault, rfl, kind_of_decode_error answer⟩

theorem decode_accepts_smallFile :
    IsFile smallFile ∧ ∃ fault, decode (smallFile.take 22) = .error fault ∧
      fault.kind = .badFormat := by
  constructor
  · exact (decode_accepts_files smallFile).1.1 ⟨_, decode_smallFile⟩
  · apply (decode_accepts_files (smallFile.take 22)).2.2.1
    rw [← (decode_accepts_files (smallFile.take 22)).1]
    rintro ⟨container, decoded⟩
    have refused : decode (smallFile.take 22) = .error (badFormat .unterminatedSymbol) := rfl
    rw [refused] at decoded
    cases decoded

end Container

end Abacus.Bytecode
