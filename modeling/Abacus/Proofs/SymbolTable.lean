import Mathlib.Data.List.Forall2
import Abacus.Bytecode.Container
import Abacus.Proofs.Numerals

/-!
The table of names at the end of a file. It is a row of entries, each a numeral, an equals sign, a
name without semicolons and a semicolon. Main statement: reading accepts exactly the UTF-8 texts
of such rows and gives the slot and the name of each entry, in order.
-/

namespace Abacus

namespace Text

/-- A text ends with a semicolon, or is empty, exactly when it is cut into terminated pieces. -/
theorem splitOn_eq_concat_nil_iff {text : List Char} {items : List (List Char)} :
    text.splitOn ';' = items ++ [[]] ↔
      text = items.flatMap (· ++ [';']) ∧ ∀ item ∈ items, ';' ∉ item := by
  constructor
  · intro cut
    induction items generalizing text with
    | nil =>
        by_cases ended : ';' ∈ text
        · obtain ⟨front, rest, rfl, free⟩ := List.eq_append_cons_of_mem ended
          rw [List.splitOn_append_cons_self_of_not_mem free] at cut
          simp at cut
        · rw [List.splitOn_eq_singleton ended] at cut
          simpa using cut
    | cons item items induction =>
        by_cases ended : ';' ∈ text
        · obtain ⟨front, rest, rfl, free⟩ := List.eq_append_cons_of_mem ended
          rw [List.splitOn_append_cons_self_of_not_mem free, List.cons_append,
            List.cons.injEq] at cut
          obtain ⟨rfl, cut⟩ := cut
          obtain ⟨shape, others⟩ := induction cut
          refine ⟨by simp [shape], ?_⟩
          intro other member
          rcases List.mem_cons.1 member with rfl | later
          · exact free
          · exact others other later
        · rw [List.splitOn_eq_singleton ended] at cut
          simp at cut
  · rintro ⟨rfl, free⟩
    induction items with
    | nil => simp
    | cons item items induction =>
        rw [List.flatMap_cons, List.append_assoc, List.singleton_append,
          List.splitOn_append_cons_self_of_not_mem (free item (by simp)),
          induction (fun other member => free other (by simp [member]))]
        rfl

theorem cut_at_sign {sign : Char} {front : List Char} (free : sign ∉ front) (rest : List Char) :
    (front ++ sign :: rest).takeWhile (· != sign) = front ∧
      (front ++ sign :: rest).dropWhile (· != sign) = sign :: rest := by
  have before : ∀ c ∈ front, (c != sign) = true := by
    intro c member
    rw [bne_iff_ne]
    rintro rfl
    exact free member
  rw [List.takeWhile_append_of_pos before, List.dropWhile_append_of_pos before]
  simp

end Text

theorem mapM_eq_ok_iff {α β ε : Type} {read : α → Except ε β} {items : List α}
    {results : List β} :
    items.mapM read = .ok results ↔
      List.Forall₂ (fun item result => read item = .ok result) items results := by
  induction items generalizing results with
  | nil =>
      rw [List.mapM_nil, List.forall₂_nil_left_iff]
      exact ⟨fun same => (Except.ok.inj same).symm, fun same => congrArg Except.ok same.symm⟩
  | cons item items induction =>
      rw [List.mapM_cons, List.forall₂_cons_left_iff]
      cases first : read item with
      | error fault => simp [bind, Except.bind]
      | ok result =>
          cases rest : items.mapM read with
          | error fault =>
              have none : ∀ others,
                  ¬ List.Forall₂ (fun item result => read item = .ok result) items others := by
                intro others held
                rw [← induction, rest] at held
                cases held
              simp [bind, Except.bind, none]
          | ok others =>
              have same : ∀ given,
                  List.Forall₂ (fun item result => read item = .ok result) items given ↔
                    others = given := by
                intro given
                rw [← induction, rest, Except.ok.injEq]
              simp [bind, Except.bind, pure, Except.pure, same, eq_comm]

namespace Bytecode

structure SymbolEntry where
  numeral : List Char
  name : String

namespace SymbolEntry

variable {entry : SymbolEntry} {symbol : Slot × String}

def item (entry : SymbolEntry) : List Char := entry.numeral ++ '=' :: entry.name.toList

def text (entry : SymbolEntry) : List Char := entry.item ++ [';']

/-- The numeral is that of a slot, and the name does not end early. -/
structure WellFormed (entry : SymbolEntry) : Prop where
  numeral : ∃ number ≤ 65535, Text.Denotes entry.numeral number
  closed : ';' ∉ entry.name.toList

structure Gives (entry : SymbolEntry) (symbol : Slot × String) : Prop where
  slot : Text.Denotes entry.numeral symbol.1.toNat
  name : entry.name = symbol.2
  closed : ';' ∉ entry.name.toList

theorem Gives.wellFormed (gives : entry.Gives symbol) : entry.WellFormed :=
  ⟨⟨symbol.1.toNat, Nat.le_of_lt_succ symbol.1.toNat_lt, gives.slot⟩, gives.closed⟩

theorem WellFormed.exists_gives (wellFormed : entry.WellFormed) :
    ∃ symbol, entry.Gives symbol := by
  obtain ⟨number, bounded, denotes⟩ := wellFormed.numeral
  have small : number % 65536 = number := by omega
  exact ⟨(number.toUInt16, entry.name), by simpa [small] using denotes, rfl, wellFormed.closed⟩

theorem WellFormed.numeral_free (wellFormed : entry.WellFormed) {c : Char}
    (other : c ≠ '+' ∧ c.isDigit = false) : c ∉ entry.numeral := by
  intro member
  obtain ⟨_, _, denotes⟩ := wellFormed.numeral
  rcases denotes.sign_or_digit member with sign | digit
  · exact other.1 sign
  · rw [other.2] at digit
    cases digit

theorem WellFormed.item_closed (wellFormed : entry.WellFormed) : ';' ∉ entry.item := by
  intro member
  simp only [item, List.mem_append, List.mem_cons] at member
  rcases member with numeral | equals | name
  · exact wellFormed.numeral_free (by decide) numeral
  · revert equals
    decide
  · exact wellFormed.closed name

def ofItem (item : List Char) : SymbolEntry :=
  ⟨item.takeWhile (· != '='), String.ofList (item.dropWhile (· != '=')).tail⟩

theorem WellFormed.takeWhile_item (wellFormed : entry.WellFormed) :
    entry.item.takeWhile (· != '=') = entry.numeral ∧
      entry.item.dropWhile (· != '=') = '=' :: entry.name.toList :=
  Text.cut_at_sign (wellFormed.numeral_free (by decide)) _

theorem WellFormed.ofItem_item (wellFormed : entry.WellFormed) : ofItem entry.item = entry := by
  obtain ⟨numeral, name⟩ := wellFormed.takeWhile_item
  simp [ofItem, numeral, name]

theorem item_ofItem {items : List Char} (split : '=' ∈ items) : (ofItem items).item = items := by
  obtain ⟨front, rest, rfl, free⟩ := List.eq_append_cons_of_mem split
  obtain ⟨numeral, name⟩ := Text.cut_at_sign free rest
  simp [ofItem, item, numeral, name]

def printed (symbol : Slot × String) : SymbolEntry :=
  ⟨Nat.toDigits 10 symbol.1.toNat, symbol.2⟩

theorem gives_printed_iff : (printed symbol).Gives symbol ↔ ';' ∉ symbol.2.toList := by
  constructor
  · exact Gives.closed
  · intro closed
    exact ⟨Text.denotes_toDigits _, rfl, closed⟩

theorem Gives.eq_printed_iff (gives : entry.Gives symbol) :
    entry = printed symbol ↔ Text.IsPlain entry.numeral := by
  rw [← gives.slot.eq_toDigits_iff]
  constructor
  · rintro rfl
    rfl
  · intro same
    obtain ⟨numeral, name⟩ := entry
    have named : name = symbol.2 := gives.name
    rw [printed, same, named]

end SymbolEntry

def tableBytes (entries : List SymbolEntry) : List UInt8 :=
  Text.utf8 (String.ofList (entries.flatMap SymbolEntry.text))

section Rows

variable {entries others : List SymbolEntry} {symbols : List (Slot × String)}

theorem wellFormed_of_gives (gives : List.Forall₂ SymbolEntry.Gives entries symbols) :
    ∀ entry ∈ entries, entry.WellFormed := by
  induction gives with
  | nil => simp
  | cons first _ induction =>
      intro entry member
      rcases List.mem_cons.1 member with rfl | later
      · exact first.wellFormed
      · exact induction entry later

theorem exists_symbols (wellFormed : ∀ entry ∈ entries, entry.WellFormed) :
    ∃ symbols, List.Forall₂ SymbolEntry.Gives entries symbols := by
  induction entries with
  | nil => exact ⟨[], .nil⟩
  | cons entry entries induction =>
      obtain ⟨symbol, first⟩ := (wellFormed entry (by simp)).exists_gives
      obtain ⟨symbols, rest⟩ := induction fun other member => wellFormed other (by simp [member])
      exact ⟨symbol :: symbols, .cons first rest⟩

theorem splitOn_table (wellFormed : ∀ entry ∈ entries, entry.WellFormed) :
    (entries.flatMap SymbolEntry.text).splitOn ';' = entries.map SymbolEntry.item ++ [[]] := by
  apply Text.splitOn_eq_concat_nil_iff.2
  constructor
  · rw [List.flatMap_map]
    rfl
  · intro item member
    obtain ⟨entry, inside, rfl⟩ := List.mem_map.1 member
    exact (wellFormed entry inside).item_closed

/-- A table can be read as a row of entries in one way only. -/
theorem tableBytes_inj (wellFormed : ∀ entry ∈ entries, entry.WellFormed)
    (othersFormed : ∀ entry ∈ others, entry.WellFormed)
    (same : tableBytes entries = tableBytes others) : entries = others := by
  -- The semicolons give the items back, and the first equals sign of an item its entry.
  have back : ∀ row : List SymbolEntry, (∀ entry ∈ row, entry.WellFormed) →
      (row.map SymbolEntry.item).map SymbolEntry.ofItem = row := by
    intro row formed
    rw [List.map_map]
    exact (List.map_congr_left fun entry member => (formed entry member).ofItem_item).trans
      (List.map_id row)
  have text := String.ofList_inj.1 (Text.utf8_inj.1 same)
  have items : entries.map SymbolEntry.item = others.map SymbolEntry.item := by
    have cut := congrArg (List.splitOn ';') text
    rw [splitOn_table wellFormed, splitOn_table othersFormed] at cut
    exact List.append_cancel_right cut
  rw [← back entries wellFormed, items, back others othersFormed]

theorem eq_map_printed_iff (gives : List.Forall₂ SymbolEntry.Gives entries symbols) :
    entries = symbols.map SymbolEntry.printed ↔
      ∀ entry ∈ entries, Text.IsPlain entry.numeral := by
  induction gives with
  | nil => simp
  | cons first _ induction =>
      rw [List.map_cons, List.cons.injEq, first.eq_printed_iff, induction, List.forall_mem_cons]

theorem gives_map_printed_iff :
    List.Forall₂ SymbolEntry.Gives (symbols.map SymbolEntry.printed) symbols ↔
      ∀ symbol ∈ symbols, ';' ∉ symbol.2.toList := by
  rw [List.forall₂_map_left_iff, List.forall₂_same]
  simp only [SymbolEntry.gives_printed_iff]

theorem names_closed (gives : List.Forall₂ SymbolEntry.Gives entries symbols) :
    ∀ symbol ∈ symbols, ';' ∉ symbol.2.toList := by
  induction gives with
  | nil => simp
  | cons first _ induction =>
      rw [List.forall_mem_cons]
      exact ⟨first.name ▸ first.closed, induction⟩

end Rows

namespace Container

theorem symbolBytes_eq (symbol : Slot × String) :
    symbolBytes symbol = Text.utf8 (String.ofList (SymbolEntry.printed symbol).text) := by
  rw [symbolBytes]
  congr 1
  apply String.toList_inj.1
  simp [SymbolEntry.text, SymbolEntry.item, SymbolEntry.printed]

theorem flatMap_symbolBytes (symbols : List (Slot × String)) :
    symbols.flatMap symbolBytes = tableBytes (symbols.map SymbolEntry.printed) := by
  induction symbols with
  | nil => rfl
  | cons symbol symbols induction =>
      rw [List.flatMap_cons, induction, symbolBytes_eq, tableBytes, tableBytes, List.map_cons,
        List.flatMap_cons, String.ofList_append, Text.utf8_append]

theorem gives_of_readSymbol {item : List Char} {symbol : Slot × String}
    (found : readSymbol item = .ok symbol) (free : ';' ∉ item) :
    ∃ entry : SymbolEntry, item = entry.item ∧ entry.Gives symbol := by
  simp only [readSymbol] at found
  split at found
  · cases found
  · rename_i sign name rest
    have equals : sign = '=' := by
      have first := List.head?_dropWhile_not (· != '=') item
      rw [rest] at first
      simpa using first
    have split : '=' ∈ item := by
      apply (List.dropWhile_sublist (· != '=')).subset
      rw [rest, equals]
      exact List.mem_cons_self
    have shape := SymbolEntry.item_ofItem split
    have closed : ';' ∉ (SymbolEntry.ofItem item).name.toList := by
      intro member
      apply free
      rw [← shape]
      exact List.mem_append_right _ (List.mem_cons_of_mem _ member)
    split at found
    · rename_i number read
      cases found
      obtain ⟨denotes, bounded⟩ := Text.readDecimal?_eq_some_iff.1 read
      have small : number % 65536 = number := by omega
      refine ⟨SymbolEntry.ofItem item, shape.symm, ?_, ?_, closed⟩
      · simpa [small, SymbolEntry.ofItem] using denotes
      · simp [SymbolEntry.ofItem, rest]
    · cases found

theorem readSymbol_item {entry : SymbolEntry} {symbol : Slot × String}
    (gives : entry.Gives symbol) : readSymbol entry.item = .ok symbol := by
  obtain ⟨numeral, name⟩ := gives.wellFormed.takeWhile_item
  have read : Text.readDecimal? 65535 entry.numeral = some symbol.1.toNat :=
    Text.readDecimal?_eq_some_iff.2 ⟨gives.slot, Nat.le_of_lt_succ symbol.1.toNat_lt⟩
  simp [readSymbol, numeral, name, read, gives.name]

theorem gives_of_mapM {items : List (List Char)} {symbols : List (Slot × String)}
    (found : items.mapM readSymbol = .ok symbols) (free : ∀ item ∈ items, ';' ∉ item) :
    ∃ entries : List SymbolEntry, items = entries.map SymbolEntry.item ∧
      List.Forall₂ SymbolEntry.Gives entries symbols := by
  induction mapM_eq_ok_iff.1 found with
  | nil => exact ⟨[], rfl, .nil⟩
  | cons first rest induction =>
      obtain ⟨entry, rfl, gives⟩ := gives_of_readSymbol first (free _ (by simp))
      obtain ⟨entries, rfl, others⟩ :=
        induction (mapM_eq_ok_iff.2 rest) fun item member => free item (by simp [member])
      exact ⟨entry :: entries, rfl, .cons gives others⟩

/-- The table is read exactly when it is a row of entries. -/
theorem readSymbols_eq_ok_iff {bytes : List UInt8} {symbols : List (Slot × String)} :
    readSymbols bytes = .ok symbols ↔
      ∃ entries, bytes = tableBytes entries ∧
        List.Forall₂ SymbolEntry.Gives entries symbols := by
  constructor
  · intro found
    simp only [readSymbols] at found
    split at found
    · cases found
    · rename_i text decoded
      split at found
      · rename_i last
        have cut : text.toList.splitOn ';' = (text.toList.splitOn ';').dropLast ++ [[]] :=
          (List.dropLast_append_getLast? [] last).symm
        obtain ⟨shape, free⟩ := Text.splitOn_eq_concat_nil_iff.1 cut
        obtain ⟨entries, items, gives⟩ := gives_of_mapM found free
        refine ⟨entries, ?_, gives⟩
        rw [items, List.flatMap_map] at shape
        rw [Text.ofUtf8?_eq_some_iff.1 decoded, tableBytes, ← String.ofList_toList (s := text),
          shape]
        rfl
      · cases found
  · rintro ⟨entries, rfl, gives⟩
    have found : (entries.map SymbolEntry.item).mapM readSymbol = .ok symbols := by
      rw [mapM_eq_ok_iff, List.forall₂_map_left_iff]
      exact gives.imp fun _ _ => readSymbol_item
    have decoded : Text.ofUtf8? (tableBytes entries) =
        some (String.ofList (entries.flatMap SymbolEntry.text)) :=
      Text.ofUtf8?_utf8 _
    have items := splitOn_table (wellFormed_of_gives gives)
    simp only [readSymbols, decoded, String.toList_ofList, items, List.getLast?_concat,
      List.dropLast_concat, if_true, found]

end Container

end Bytecode

end Abacus
