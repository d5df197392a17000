import Abacus.Proofs.CodeLayout
import Abacus.Proofs.FileFormat
import Abacus.Proofs.SourceNames

/-!
Encoding and decoding one after the other. What was encoded is decoded to the same container
exactly when no name holds a semicolon, which is so for every compiled source. What was decoded
is encoded to its normal form: the bytes are the same but for the numerals of the table, which
are written plainly.
-/

namespace Abacus.Bytecode.Container

theorem encode_eq_table (container : Container) :
    container.encode = container.header ++ container.codeBytes ++
      tableBytes (container.symbols.map SymbolEntry.printed) := by
  rw [encode_eq, flatMap_symbolBytes]

theorem decode_encode_iff {container : Container} :
    decode container.encode = .ok container ↔
      ∀ symbol ∈ container.symbols, ';' ∉ symbol.2.toList := by
  rw [decode_eq_ok_iff]
  constructor
  · rintro ⟨table, _, read⟩
    obtain ⟨entries, _, gives⟩ := readSymbols_eq_ok_iff.1 read
    exact names_closed gives
  · intro closed
    have gives := gives_map_printed_iff.2 closed
    exact ⟨_, container.encode_eq_table, readSymbols_eq_ok_iff.2 ⟨_, rfl, gives⟩⟩

/-- Decoding undoes encoding exactly when no name holds a semicolon, and always for a compiled
source. -/
theorem decode_undoes_encode :
    (∀ varCount code symbols container, make varCount code symbols = .ok container →
      (decode container.encode = .ok container ↔ ∀ symbol ∈ symbols, ';' ∉ symbol.2.toList)) ∧
    ∀ source container, (Program.ofSource source).compile = .ok container →
      decode container.encode = .ok container := by
  constructor
  · intro varCount code symbols container made
    rw [make] at made
    split at made
    · cases made
      exact decode_encode_iff
    · cases made
  · intro source container compiled
    obtain ⟨_, _, _, _, symbols⟩ :=
      Program.compiles_of_compile (Program.wellLinked_ofPhrases _) compiled
    rw [decode_encode_iff, symbols]
    exact Program.semicolon_not_mem_symbols source

theorem decode_undoes_encode_oddNames :
    (∃ container, make 2 [⟨.inc, 5, 9⟩] [(3, ""), (3, "a=b"), (0, "é")] = .ok container ∧
      decode container.encode = .ok container) ∧
    (∃ container, make 2 [⟨.inc, 5, 9⟩] [(3, "a;b")] = .ok container ∧
      decode container.encode ≠ .ok container) ∧
    ∃ container, (Program.ofSource "INCR Σ;").compile = .ok container ∧
      decode container.encode = .ok container := by
  refine ⟨⟨_, rfl, ?_⟩, ⟨_, rfl, ?_⟩, ?_⟩
  · exact (decode_undoes_encode.1 2 [⟨.inc, 5, 9⟩] [(3, ""), (3, "a=b"), (0, "é")] _ rfl).2
      (by decide)
  · intro undone
    have closed := (decode_undoes_encode.1 2 [⟨.inc, 5, 9⟩] [(3, "a;b")] _ rfl).1 undone
    exact absurd (closed _ List.mem_cons_self) (by decide)
  · have compiled : (Program.ofSource "INCR Σ;").compile =
        .ok ⟨1, [.inc 0], [(0, "σ")], by decide⟩ := by decide +kernel
    exact ⟨_, compiled, decode_undoes_encode.2 _ _ compiled⟩

section Normal

variable {bytes : List UInt8} {container : Container}
  (decoded : decode bytes = .ok container)
include decoded

theorem exists_shape : ∃ entries,
    bytes = container.header ++ container.codeBytes ++ tableBytes entries ∧
      List.Forall₂ SymbolEntry.Gives entries container.symbols := by
  obtain ⟨table, shape, read⟩ := decode_eq_ok_iff.1 decoded
  obtain ⟨entries, rfl, gives⟩ := readSymbols_eq_ok_iff.1 read
  exact ⟨entries, shape, gives⟩

theorem take_encode :
    container.encode.take (10 + codeSize bytes) = bytes.take (10 + codeSize bytes) := by
  obtain ⟨_, shape, _⟩ := exists_shape decoded
  rw [take_eq_front shape, encode_eq_table, List.take_left' (length_front shape)]

theorem encode_eq_iff {entries : List SymbolEntry} (table : HasTable bytes entries) :
    container.encode = bytes ↔ ∀ entry ∈ entries, Text.IsPlain entry.numeral := by
  obtain ⟨own, shape, gives⟩ := exists_shape decoded
  obtain rfl : own = entries := by
    apply tableBytes_inj (wellFormed_of_gives gives) table.2
    rw [← table.1, drop_eq_table shape]
  rw [← eq_map_printed_iff gives]
  constructor
  · intro same
    rw [encode_eq_table, shape] at same
    have closed := gives_map_printed_iff.2 (names_closed gives)
    exact (tableBytes_inj (wellFormed_of_gives closed) (wellFormed_of_gives gives)
      (List.append_cancel_left same)).symm
  · intro same
    rw [encode_eq_table, ← same, ← shape]

end Normal

/-- Encoding what was decoded keeps all but the spelling of the numerals, and does so once. -/
theorem encode_normalizes {bytes : List UInt8} {container : Container}
    (decoded : decode bytes = .ok container) :
    container.encode.take (10 + codeSize bytes) = bytes.take (10 + codeSize bytes) ∧
      (∃ entries, HasTable bytes entries) ∧
      (∀ entries, HasTable bytes entries →
        (container.encode = bytes ↔ ∀ entry ∈ entries, Text.IsPlain entry.numeral)) ∧
      decode container.encode = .ok container ∧
      (decode container.encode).map encode = .ok container.encode := by
  obtain ⟨entries, shape, gives⟩ := exists_shape decoded
  have again : decode container.encode = .ok container :=
    decode_encode_iff.2 (names_closed gives)
  have table : HasTable bytes entries := ⟨drop_eq_table shape, wellFormed_of_gives gives⟩
  refine ⟨take_encode decoded, ⟨entries, table⟩, fun _ => encode_eq_iff decoded, again, ?_⟩
  rw [again]
  rfl

theorem encode_normalizes_smallFile :
    ∃ container, decode smallFile = .ok container ∧ container.encode ≠ smallFile ∧
      decode container.encode = .ok container := by
  obtain ⟨_, _, plain, again, _⟩ := encode_normalizes decode_smallFile
  refine ⟨_, decode_smallFile, fun same => ?_, again⟩
  have digits : Text.DigitsOf 0 ['0', '0'] := ⟨by decide, by simp, rfl⟩
  have table : HasTable smallFile [⟨['+', '0', '0'], "a"⟩] := by
    refine ⟨rfl, ?_⟩
    intro entry member
    cases List.mem_singleton.1 member
    exact ⟨⟨0, by decide, .inr ⟨_, rfl, digits⟩⟩, by decide⟩
  exact absurd ((plain _ table).1 same _ List.mem_cons_self) (by decide)

end Abacus.Bytecode.Container
