import Abacus.Proofs.SymbolTable

/-!
The format of compiled files. A file is a header of ten bytes, records of seven bytes and a table
of names; `IsFile` says so place by place, and `Container.IsReadFrom` says which container stands
there. Main statement: decoding accepts exactly the files of this format and gives the container
that can be read from their places.
-/

namespace Abacus.Bytecode

namespace Container

def header (container : Container) : List UInt8 :=
  magic ++ bytes16 container.varCount ++ bytes32 container.codeLength.toUInt32

def codeBytes (container : Container) : List UInt8 := container.code.flatMap Record.bytes

theorem encode_eq (container : Container) :
    container.encode =
      container.header ++ container.codeBytes ++ container.symbols.flatMap symbolBytes := rfl

theorem length_flatMap_bytes (code : List Record) :
    (code.flatMap Record.bytes).length = code.length * Record.width := by
  induction code with
  | nil => rfl
  | cons record code induction =>
      rw [List.flatMap_cons, List.length_append, induction, Record.length_bytes, List.length_cons,
        Nat.succ_mul, Nat.add_comm]

theorem length_codeBytes (container : Container) :
    container.codeBytes.length = container.codeLength := length_flatMap_bytes container.code

theorem length_header (container : Container) : container.header.length = 10 := rfl

theorem toNat_codeLength (container : Container) :
    container.codeLength.toUInt32.toNat = container.codeLength := by
  have fits := container.code_fits
  simp only [codeLimit] at fits
  simp only [codeLength, Nat.toUInt32_eq, UInt32.toNat_ofNat']
  omega

theorem readCode_eq_ok_iff {count : Nat} {bytes : List UInt8} {before code : List Record} :
    readCode count bytes before = .ok code ↔
      ∃ own rest, own.length = count ∧ bytes = own.flatMap Record.bytes ++ rest ∧
        code = before.reverse ++ own := by
  induction count generalizing bytes before with
  | zero =>
      constructor
      · intro found
        cases found
        exact ⟨[], bytes, rfl, rfl, (List.append_nil _).symm⟩
      · rintro ⟨own, rest, none, _, rfl⟩
        rw [List.length_eq_zero_iff.1 none, List.append_nil]
        rfl
  | succ count induction =>
      constructor
      · intro found
        simp only [readCode] at found
        split at found
        · rename_i record read
          obtain ⟨own, rest, size, shape, rfl⟩ := induction.1 found
          have first := Record.read_eq_ok_iff.1 read
          refine ⟨record :: own, rest, by simp [size], ?_, by simp⟩
          rw [List.flatMap_cons, List.append_assoc, ← shape, ← first, List.take_append_drop]
        · cases found
      · rintro ⟨own, rest, size, rfl, rfl⟩
        cases own with
        | nil => cases size
        | cons record own =>
            have first : (((record :: own).flatMap Record.bytes) ++ rest).take Record.width =
                record.bytes := by
              rw [List.flatMap_cons, List.append_assoc]
              exact List.take_left' record.length_bytes
            have later : (((record :: own).flatMap Record.bytes) ++ rest).drop Record.width =
                own.flatMap Record.bytes ++ rest := by
              rw [List.flatMap_cons, List.append_assoc]
              exact List.drop_left' record.length_bytes
            simp only [readCode, first, later, Record.read_bytes]
            apply induction.2
            exact ⟨own, rest, by simpa using size, rfl, by simp⟩

theorem header_eq {container : Container} {count₁ count₀ length₃ length₂ length₁ length₀ : UInt8}
    (count : container.varCount = word16 count₁ count₀)
    (size : container.codeLength = (word32 length₃ length₂ length₁ length₀).toNat) :
    container.header = magic ++ [count₁, count₀, length₃, length₂, length₁, length₀] := by
  rw [header, count, size, Nat.toUInt32_eq, UInt32.ofNat_toNat, bytes16_word16, bytes32_word32]
  rfl

theorem decode_of_parts {count₁ count₀ length₃ length₂ length₁ length₀ : UInt8}
    {rest : List UInt8} {container : Container}
    (size : (word32 length₃ length₂ length₁ length₀).toNat = container.codeLength)
    (count : container.varCount = word16 count₁ count₀)
    (full : container.codeLength ≤ rest.length)
    (code : readCode container.code.length rest [] = .ok container.code)
    (symbols : readSymbols (rest.drop container.codeLength) = .ok container.symbols) :
    decode (0x42 :: 0x4F :: 0x4E :: 0x45 :: count₁ :: count₀ ::
      length₃ :: length₂ :: length₁ :: length₀ :: rest) = .ok container := by
  have whole : container.codeLength % Record.width = 0 := Nat.mul_mod_left _ _
  have records : container.codeLength / Record.width = container.code.length :=
    Nat.mul_div_cancel _ (by decide)
  have marked : ¬ ([0x42, 0x4F, 0x4E, 0x45] : List UInt8) ≠ magic := not_not.2 rfl
  unfold decode
  simp only [size]
  rw [if_neg marked, if_neg (not_not.2 whole), if_neg (Nat.not_lt.2 full)]
  split
  · rename_i refused
    rw [size, records, code] at refused
    cases refused
  · rename_i own read
    rw [size, records, code] at read
    cases read
    simp only [symbols, ← count]

/-- A file is its header, its code and its table. -/
theorem decode_eq_ok_iff {bytes : List UInt8} {container : Container} :
    decode bytes = .ok container ↔
      ∃ table, bytes = container.header ++ container.codeBytes ++ table ∧
        readSymbols table = .ok container.symbols := by
  constructor
  · intro decoded
    unfold decode at decoded
    split at decoded
    · rename_i magic₃ magic₂ magic₁ magic₀ count₁ count₀ length₃ length₂ length₁ length₀ rest
      dsimp only at decoded
      split_ifs at decoded with mark whole full
      split at decoded
      · cases decoded
      · rename_i code read
        split at decoded
        · cases decoded
        · rename_i symbols table
          have same := Except.ok.inj decoded
          have count : container.varCount = word16 count₁ count₀ := by rw [← same]
          have own : container.code = code := by rw [← same]
          have names : container.symbols = symbols := by rw [← same]
          obtain ⟨records, tail, amount, shape, all⟩ := readCode_eq_ok_iff.1 read
          obtain rfl : code = records := all
          have size : container.codeLength =
              (word32 length₃ length₂ length₁ length₀).toNat := by
            rw [codeLength, own, amount]
            exact Nat.div_mul_cancel (Nat.dvd_of_mod_eq_zero (not_not.1 whole))
          have last : rest.drop (word32 length₃ length₂ length₁ length₀).toNat = tail := by
            rw [shape, ← own, ← size]
            exact List.drop_left' container.length_codeBytes
          refine ⟨tail, ?_, ?_⟩
          · rw [header_eq count size, ← not_not.1 mark, shape, codeBytes, own]
            rfl
          · rw [← last, names]
            exact table
    · cases decoded
  · rintro ⟨table, rfl, read⟩
    have code : readCode container.code.length (container.codeBytes ++ table) [] =
        .ok container.code :=
      readCode_eq_ok_iff.2 ⟨container.code, table, rfl, rfl, rfl⟩
    have full : container.codeLength ≤ (container.codeBytes ++ table).length := by
      rw [List.length_append, container.length_codeBytes]
      exact Nat.le_add_right _ _
    have symbols : readSymbols ((container.codeBytes ++ table).drop container.codeLength) =
        .ok container.symbols := by
      rw [List.drop_left' container.length_codeBytes]
      exact read
    have size := (congrArg UInt32.toNat (word32_bytes32 container.codeLength.toUInt32)).trans
      container.toNat_codeLength
    have count := (word16_bytes16 container.varCount).symm
    rw [List.append_assoc, header_eq count size.symm]
    exact decode_of_parts size count full code symbols

theorem kind_of_decode_error {bytes : List UInt8} {fault : Fault}
    (refused : decode bytes = .error fault) : fault.kind = .badFormat := by
  unfold decode at refused
  split at refused
  · dsimp only at refused
    split_ifs at refused with mark whole full
    · cases refused
      rfl
    · cases refused
      rfl
    · cases refused
      rfl
    · split at refused
      · cases refused
        rfl
      · split at refused
        · cases refused
          rfl
        · cases refused
  · cases refused
    rfl

end Container

def byteAt (bytes : List UInt8) (place : Nat) : UInt8 := bytes.getD place 0

def codeSize (bytes : List UInt8) : Nat :=
  (word32 (byteAt bytes 6) (byteAt bytes 7) (byteAt bytes 8) (byteAt bytes 9)).toNat

def HasTable (bytes : List UInt8) (entries : List SymbolEntry) : Prop :=
  bytes.drop (10 + codeSize bytes) = tableBytes entries ∧ ∀ entry ∈ entries, entry.WellFormed

/-- The format of compiled files, place by place. -/
structure IsFile (bytes : List UInt8) : Prop where
  long : 10 ≤ bytes.length
  marked : bytes.take 4 = [0x42, 0x4F, 0x4E, 0x45]
  whole : codeSize bytes % 7 = 0
  full : 10 + codeSize bytes ≤ bytes.length
  opcodes : ∀ index < codeSize bytes / 7,
    byteAt bytes (10 + 7 * index) ∈ ([0x00, 0x40, 0x80, 0xB0] : List UInt8)
  table : ∃ entries, HasTable bytes entries

/-- The container that a file holds, place by place. -/
structure Container.IsReadFrom (container : Container) (bytes : List UInt8) : Prop where
  varCount : container.varCount = word16 (byteAt bytes 4) (byteAt bytes 5)
  count : container.code.length = codeSize bytes / 7
  records : ∀ index record, container.code[index]? = some record →
    record.opcode.byte = byteAt bytes (10 + 7 * index) ∧
      record.slot = word16 (byteAt bytes (11 + 7 * index)) (byteAt bytes (12 + 7 * index)) ∧
      record.target = word32 (byteAt bytes (13 + 7 * index)) (byteAt bytes (14 + 7 * index))
        (byteAt bytes (15 + 7 * index)) (byteAt bytes (16 + 7 * index))
  symbols : ∃ entries, HasTable bytes entries ∧
    List.Forall₂ SymbolEntry.Gives entries container.symbols

theorem byteAt_add (bytes : List UInt8) (start place : Nat) :
    byteAt bytes (start + place) = byteAt (bytes.drop start) place := by
  simp only [byteAt, List.getD_eq_getElem?_getD, List.getElem?_drop]

theorem exists_header {bytes : List UInt8} (long : 10 ≤ bytes.length) :
    ∃ magic₃ magic₂ magic₁ magic₀ count₁ count₀ length₃ length₂ length₁ length₀ rest,
      bytes = magic₃ :: magic₂ :: magic₁ :: magic₀ :: count₁ :: count₀ ::
        length₃ :: length₂ :: length₁ :: length₀ :: rest :=
  match bytes, long with
  | _ :: _ :: _ :: _ :: _ :: _ :: _ :: _ :: _ :: _ :: _, _ =>
    ⟨_, _, _, _, _, _, _, _, _, _, _, rfl⟩

theorem eq_header_append {bytes : List UInt8} (long : 10 ≤ bytes.length)
    (marked : bytes.take 4 = magic) :
    bytes = magic ++ [byteAt bytes 4, byteAt bytes 5, byteAt bytes 6, byteAt bytes 7,
      byteAt bytes 8, byteAt bytes 9] ++ bytes.drop 10 := by
  rw [← marked]
  obtain ⟨_, _, _, _, _, _, _, _, _, _, _, rfl⟩ := exists_header long
  rfl

theorem Opcode.byte_inj {left right : Opcode} (same : left.byte = right.byte) : left = right := by
  have found := ofByte?_byte left
  rw [same, ofByte?_byte] at found
  exact (Option.some.inj found).symm

theorem Opcode.mem_bytes_iff {byte : UInt8} :
    byte ∈ ([0x00, 0x40, 0x80, 0xB0] : List UInt8) ↔ ∃ opcode : Opcode, byte = opcode.byte := by
  constructor
  · intro member
    simp only [List.mem_cons, List.not_mem_nil, or_false] at member
    rcases member with rfl | rfl | rfl | rfl
    · exact ⟨.clear, rfl⟩
    · exact ⟨.dec, rfl⟩
    · exact ⟨.inc, rfl⟩
    · exact ⟨.goto, rfl⟩
  · rintro ⟨opcode, rfl⟩
    cases opcode <;> decide

namespace Container

section Places

variable {container : Container} {bytes table : List UInt8}
  (shape : bytes = container.header ++ container.codeBytes ++ table)
include shape

theorem codeSize_eq : codeSize bytes = container.codeLength := by
  rw [← container.toNat_codeLength, ← word32_bytes32 container.codeLength.toUInt32, shape]
  rfl

theorem length_front : (container.header ++ container.codeBytes).length = 10 + codeSize bytes := by
  rw [List.length_append, container.length_header, container.length_codeBytes, codeSize_eq shape]

theorem take_eq_front :
    bytes.take (10 + codeSize bytes) = container.header ++ container.codeBytes := by
  conv_lhs => rw [← length_front shape, shape]
  exact List.take_left

theorem drop_eq_table : bytes.drop (10 + codeSize bytes) = table := by
  conv_lhs => rw [← length_front shape, shape]
  exact List.drop_left

theorem drop_eq_record {index : Nat} {record : Record}
    (found : container.code[index]? = some record) :
    ∃ rest, bytes.drop (10 + 7 * index) = record.bytes ++ rest := by
  obtain ⟨inside, same⟩ := List.getElem?_eq_some_iff.1 found
  have code : container.codeBytes =
      (container.code.take index).flatMap Record.bytes ++
        (record.bytes ++ (container.code.drop (index + 1)).flatMap Record.bytes) := by
    rw [← List.flatMap_cons, ← List.flatMap_append, ← same, ← List.drop_eq_getElem_cons inside,
      List.take_append_drop]
    rfl
  refine ⟨(container.code.drop (index + 1)).flatMap Record.bytes ++ table, ?_⟩
  rw [shape, code, List.append_assoc, List.append_assoc, List.append_assoc, ← List.append_assoc]
  apply List.drop_left'
  rw [List.length_append, container.length_header, length_flatMap_bytes, List.length_take,
    Nat.min_eq_left (Nat.le_of_lt inside), Nat.mul_comm]
  rfl

theorem isReadFrom_of_shape (symbols : readSymbols table = .ok container.symbols) :
    container.IsReadFrom bytes := by
  refine ⟨?_, ?_, ?_, ?_⟩
  · rw [← word16_bytes16 container.varCount, shape]
    rfl
  · rw [codeSize_eq shape]
    exact (Nat.mul_div_cancel _ (by decide)).symm
  · intro index record found
    obtain ⟨rest, own⟩ := drop_eq_record shape found
    have place : ∀ place, byteAt bytes (10 + place + 7 * index) =
        byteAt (record.bytes ++ rest) place := by
      intro place
      rw [Nat.add_right_comm, byteAt_add, own]
    refine ⟨(place 0).symm, ?_, ?_⟩
    · rw [← word16_bytes16 record.slot, place 1, place 2]
      rfl
    · rw [← word32_bytes32 record.target, place 3, place 4, place 5, place 6]
      rfl
  · obtain ⟨entries, rfl, gives⟩ := readSymbols_eq_ok_iff.1 symbols
    exact ⟨entries, ⟨drop_eq_table shape, wellFormed_of_gives gives⟩, gives⟩

end Places

theorem IsReadFrom.unique {left right : Container} {bytes : List UInt8}
    (leftRead : left.IsReadFrom bytes) (rightRead : right.IsReadFrom bytes) : left = right := by
  have code : left.code = right.code := by
    apply List.ext_getElem
    · rw [leftRead.count, rightRead.count]
    · intro index leftInside rightInside
      have first := leftRead.records index _ (List.getElem?_eq_getElem leftInside)
      have second := rightRead.records index _ (List.getElem?_eq_getElem rightInside)
      have opcode := Opcode.byte_inj (first.1.trans second.1.symm)
      have slot := first.2.1.trans second.2.1.symm
      have target := first.2.2.trans second.2.2.symm
      rw [Record.mk.injEq]
      exact ⟨opcode, slot, target⟩
  have symbols : left.symbols = right.symbols := by
    obtain ⟨_, ⟨table, _⟩, gives⟩ := leftRead.symbols
    obtain ⟨_, ⟨other, _⟩, others⟩ := rightRead.symbols
    have found := readSymbols_eq_ok_iff.2 ⟨_, table, gives⟩
    rw [readSymbols_eq_ok_iff.2 ⟨_, other, others⟩] at found
    exact (Except.ok.inj found).symm
  have count := leftRead.varCount.trans rightRead.varCount.symm
  cases left
  cases right
  cases code
  cases symbols
  cases count
  rfl

theorem isFile_of_decode {bytes : List UInt8} {container : Container}
    (decoded : decode bytes = .ok container) : IsFile bytes := by
  obtain ⟨table, shape, symbols⟩ := decode_eq_ok_iff.1 decoded
  have size := codeSize_eq shape
  have read := isReadFrom_of_shape shape symbols
  have length : bytes.length = 10 + codeSize bytes + table.length := by
    rw [shape, List.length_append, List.length_append, length_header, length_codeBytes, ← size,
      ← shape]
  refine ⟨by omega, ?_, ?_, by omega, ?_, ?_⟩
  · rw [shape]
    rfl
  · rw [size]
    exact Nat.mul_mod_left _ _
  · intro index inside
    rw [← read.count] at inside
    have record := read.records index _ (List.getElem?_eq_getElem inside)
    rw [← record.1, Opcode.mem_bytes_iff]
    exact ⟨_, rfl⟩
  · obtain ⟨entries, table, _⟩ := read.symbols
    exact ⟨entries, table⟩

end Container

theorem Record.exists_bytes {bytes : List UInt8} (full : width ≤ bytes.length)
    (known : byteAt bytes 0 ∈ ([0x00, 0x40, 0x80, 0xB0] : List UInt8)) :
    ∃ (record : Record) (rest : List UInt8), bytes = record.bytes ++ rest := by
  match bytes, full with
  | byte :: slot₁ :: slot₀ :: target₃ :: target₂ :: target₁ :: target₀ :: rest, _ =>
      obtain ⟨opcode, same⟩ := Opcode.mem_bytes_iff.1 known
      refine ⟨⟨opcode, word16 slot₁ slot₀, word32 target₃ target₂ target₁ target₀⟩, rest, ?_⟩
      rw [Record.bytes, bytes16_word16, bytes32_word32, ← same]
      rfl

namespace Container

theorem exists_code {count : Nat} {bytes : List UInt8} (full : 7 * count ≤ bytes.length)
    (opcodes : ∀ index < count,
      byteAt bytes (7 * index) ∈ ([0x00, 0x40, 0x80, 0xB0] : List UInt8)) :
    ∃ (code : List Record) (rest : List UInt8), code.length = count ∧
      bytes = code.flatMap Record.bytes ++ rest := by
  induction count generalizing bytes with
  | zero => exact ⟨[], bytes, rfl, rfl⟩
  | succ count induction =>
      obtain ⟨record, later, rfl⟩ : ∃ (record : Record) (rest : List UInt8),
          bytes = record.bytes ++ rest := by
        apply Record.exists_bytes _ (opcodes 0 (Nat.succ_pos _))
        rw [Record.width]
        omega
      rw [List.length_append, Record.length_bytes, Record.width] at full
      have cut : (record.bytes ++ later).drop 7 = later := List.drop_left' record.length_bytes
      have next : ∀ index < count,
          byteAt later (7 * index) ∈ ([0x00, 0x40, 0x80, 0xB0] : List UInt8) := by
        intro index inside
        have known := opcodes (index + 1) (Nat.succ_lt_succ inside)
        rwa [Nat.mul_succ, Nat.add_comm, byteAt_add, cut] at known
      obtain ⟨code, rest, amount, rfl⟩ := induction (by omega) next
      refine ⟨record :: code, rest, by rw [List.length_cons, amount], ?_⟩
      rw [List.flatMap_cons, List.append_assoc]

theorem exists_decode {bytes : List UInt8} (file : IsFile bytes) :
    ∃ container, decode bytes = .ok container := by
  obtain ⟨long, marked, whole, full, opcodes, entries, table, wellFormed⟩ := file
  have room : 7 * (codeSize bytes / 7) ≤ (bytes.drop 10).length := by
    rw [List.length_drop]
    omega
  have known : ∀ index < codeSize bytes / 7,
      byteAt (bytes.drop 10) (7 * index) ∈ ([0x00, 0x40, 0x80, 0xB0] : List UInt8) := by
    intro index inside
    rw [← byteAt_add]
    exact opcodes index inside
  obtain ⟨code, rest, amount, shape⟩ := exists_code room known
  obtain ⟨symbols, gives⟩ := exists_symbols wellFormed
  have size : code.length * Record.width = codeSize bytes := by
    rw [amount]
    exact Nat.div_mul_cancel (Nat.dvd_of_mod_eq_zero whole)
  have fits : code.length * Record.width ≤ codeLimit := by
    rw [size]
    exact Nat.le_of_lt_succ (UInt32.toNat_lt _)
  let container : Container := ⟨word16 (byteAt bytes 4) (byteAt bytes 5), code, symbols, fits⟩
  -- The length field says how long the records are, so the header made for them is the file's.
  have header : container.header = _ := header_eq rfl size
  refine ⟨container, decode_eq_ok_iff.2 ⟨rest, ?_, ?_⟩⟩
  · rw [header, List.append_assoc, codeBytes, ← shape]
    exact eq_header_append long marked
  · apply readSymbols_eq_ok_iff.2
    refine ⟨entries, ?_, gives⟩
    rw [← table, ← List.drop_drop, shape, List.drop_left' ((length_flatMap_bytes code).trans size)]

theorem isReadFrom_of_decode {bytes : List UInt8} {container : Container}
    (decoded : decode bytes = .ok container) : container.IsReadFrom bytes := by
  obtain ⟨_, shape, symbols⟩ := decode_eq_ok_iff.1 decoded
  exact isReadFrom_of_shape shape symbols

theorem decode_eq_ok_iff_isReadFrom {bytes : List UInt8} {container : Container} :
    decode bytes = .ok container ↔ IsFile bytes ∧ container.IsReadFrom bytes := by
  constructor
  · intro decoded
    exact ⟨isFile_of_decode decoded, isReadFrom_of_decode decoded⟩
  · rintro ⟨file, read⟩
    obtain ⟨found, decoded⟩ := exists_decode file
    rw [read.unique (isReadFrom_of_decode decoded)]
    exact decoded

/-- One record and one entry, whose numeral has a sign and a zero too many. -/
def smallFile : List UInt8 :=
  [0x42, 0x4F, 0x4E, 0x45, 0x00, 0x01, 0x00, 0x00, 0x00, 0x07,
   0x80, 0x00, 0x00, 0x00, 0x00, 0x00, 0x00, 0x2B, 0x30, 0x30, 0x3D, 0x61, 0x3B]

theorem decode_smallFile :
    decode smallFile = .ok ⟨1, [.inc 0], [(0, "a")], by decide⟩ := rfl

end Container

end Abacus.Bytecode
