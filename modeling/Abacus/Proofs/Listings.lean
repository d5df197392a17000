import Abacus.Proofs.CodeShape
import Abacus.Proofs.LowerText
import Abacus.Proofs.SourceNames
import Abacus.Proofs.SymbolTable

/-!
Listings can be read back. A numeral ends at the first character that is no digit, an opcode at the
first space and a line at its line end, because no name of a compiled source holds a blank. Main
statement: compiled sources with the same listing have the same number of variables, the same code,
and the same name for every slot that their code uses.
-/

namespace Abacus

namespace Text

variable {front back others rest : List Char}

theorem takeWhile_toDigits (number : Nat) (foreign : ∀ c ∈ back.head?, c.isDigit = false) :
    (Nat.toDigits 10 number ++ back).takeWhile Char.isDigit = Nat.toDigits 10 number := by
  have digits : ∀ c ∈ Nat.toDigits 10 number, c.isDigit = true := by
    intro c member
    exact Nat.isDigit_of_mem_toDigits (by decide) (by decide) member
  rw [List.takeWhile_append_of_pos digits]
  cases back with
  | nil => simp
  | cons c back => simp [foreign c rfl]

/-- A printed number is read back up to the first character that is no digit. -/
theorem toDigits_append_inj {number other : Nat} (foreign : ∀ c ∈ back.head?, c.isDigit = false)
    (alien : ∀ c ∈ rest.head?, c.isDigit = false)
    (same : Nat.toDigits 10 number ++ back = Nat.toDigits 10 other ++ rest) :
    number = other ∧ back = rest := by
  have digits : Nat.toDigits 10 number = Nat.toDigits 10 other := by
    rw [← takeWhile_toDigits number foreign, same, takeWhile_toDigits other alien]
  rw [digits] at same
  have value := congrArg (Nat.ofDigitChars 10 · 0) digits
  rw [Nat.ofDigitChars_ten_toDigits, Nat.ofDigitChars_ten_toDigits] at value
  exact ⟨value, List.append_cancel_left same⟩

theorem sign_append_inj {sign : Char} (whole : sign ∉ front) (single : sign ∉ others)
    (same : front ++ sign :: back = others ++ sign :: rest) : front = others ∧ back = rest := by
  obtain ⟨first, after⟩ := cut_at_sign whole back
  obtain ⟨second, later⟩ := cut_at_sign single rest
  rw [same] at first after
  have tails := after.symm.trans later
  exact ⟨first.symm.trans second, (List.cons.inj tails).2⟩

end Text

namespace Bytecode

def Record.aim (record : Record) : List Char :=
  match record.opcode with
  | .goto => ' ' :: Nat.toDigits 10 record.target.toNat
  | _ => []

def remark : Option String → List Char
  | some name => ' ' :: ' ' :: ';' :: ' ' :: name.toList
  | none => []

theorem remark_inj {name? other? : Option String} (same : remark name? = remark other?) :
    name? = other? := by
  cases name? with
  | none =>
      cases other? with
      | none => rfl
      | some other => cases same
  | some name =>
      cases other? with
      | none => cases same
      | some other =>
          simp only [remark, List.cons.injEq, true_and] at same
          rw [String.toList_inj.1 same]

theorem isDigit_head_remark {name? : Option String} :
    ∀ c ∈ (remark name?).head?, c.isDigit = false := by
  cases name? with
  | none => simp [remark]
  | some name =>
      intro c first
      cases first
      decide

namespace Record

variable {record other : Record} {name? other? : Option String}

theorem toList_render (record : Record) :
    record.render.toList =
      record.opcode.name.toList ++ ' ' :: (Nat.toDigits 10 record.slot.toNat ++ record.aim) := by
  unfold render aim
  cases record.opcode <;> simp

theorem name_inj {opcode another : Opcode} (same : opcode.name = another.name) :
    opcode = another := by
  revert same
  cases opcode <;> cases another <;> decide

theorem space_not_mem_name (opcode : Opcode) : ' ' ∉ opcode.name.toList := by
  cases opcode <;> decide

theorem isDigit_head_aim (record : Record) :
    ∀ c ∈ (record.aim ++ remark name?).head?, c.isDigit = false := by
  unfold aim
  split
  · intro c first
    cases first
    decide
  · exact isDigit_head_remark

/-- The target is read back from a line if only jumps have one. -/
theorem aim_append_inj (kind : record.opcode = other.opcode)
    (plain : record.opcode ≠ .goto → record.target = 0)
    (bare : other.opcode ≠ .goto → other.target = 0)
    (same : record.aim ++ remark name? = other.aim ++ remark other?) :
    record.target = other.target ∧ name? = other? := by
  unfold aim at same
  rw [← kind] at same bare
  by_cases jump : record.opcode = .goto
  · simp only [jump, List.cons_append, List.cons.injEq, true_and] at same
    obtain ⟨target, after⟩ :=
      Text.toDigits_append_inj isDigit_head_remark isDigit_head_remark same
    exact ⟨UInt32.toNat_inj.1 target, remark_inj after⟩
  · rw [plain jump, bare jump]
    refine ⟨rfl, remark_inj ?_⟩
    cases kinds : record.opcode with
    | goto => exact absurd kinds jump
    | clear | dec | inc => simpa only [kinds, List.nil_append] using same

/-- A record and the name of its slot are read back from what a line says of them. -/
theorem render_append_inj (plain : record.opcode ≠ .goto → record.target = 0)
    (bare : other.opcode ≠ .goto → other.target = 0)
    (same : record.render.toList ++ remark name? = other.render.toList ++ remark other?) :
    record = other ∧ name? = other? := by
  rw [toList_render, toList_render] at same
  simp only [List.append_assoc, List.cons_append] at same
  obtain ⟨names, after⟩ :=
    Text.sign_append_inj (space_not_mem_name _) (space_not_mem_name _) same
  have kind := name_inj (String.toList_inj.1 names)
  obtain ⟨slot, last⟩ :=
    Text.toDigits_append_inj record.isDigit_head_aim other.isDigit_head_aim after
  obtain ⟨target, name⟩ := aim_append_inj kind plain bare last
  refine ⟨?_, name⟩
  cases record
  cases other
  simp only [Record.mk.injEq]
  exact ⟨kind, UInt16.toNat_inj.1 slot, target⟩

theorem newline_not_mem_render (record : Record) : '\n' ∉ record.render.toList := by
  have name : ∀ opcode : Opcode, '\n' ∉ opcode.name.toList := by
    intro opcode
    cases opcode <;> decide
  have digits : ∀ number, '\n' ∉ Nat.toDigits 10 number := by
    intro number member
    have digit := Nat.isDigit_of_mem_toDigits (by decide) (by decide) member
    exact absurd digit (by decide)
  have aimed : '\n' ∉ record.aim := by
    unfold aim
    split <;> simp [digits]
  rw [toList_render]
  simp [name, digits, aimed]

end Record

namespace Container

variable {container copy : Container}

/-- Only jumps have a target, and no name goes on in another line. -/
structure Legible (container : Container) : Prop where
  plain : ∀ record ∈ container.code, record.opcode ≠ .goto → record.target = 0
  names : ∀ slot name, container.symbol? slot = some name → '\n' ∉ name.toList

def lines (container : Container) (index : Nat) (code : List Record) : List Char :=
  (code.zipIdx index).flatMap fun line =>
    (container.listingLine (line.2 * Record.width) line.1).toList

theorem toList_listingLine (container : Container) (offset : Nat) (record : Record) :
    (container.listingLine offset record).toList =
      (Text.alignRight 8 (toString offset)).toList ++ ' ' :: ' ' ::
        (record.render.toList ++ remark (container.symbol? record.slot) ++ ['\n']) := by
  unfold listingLine remark
  cases container.symbol? record.slot <;> simp

theorem foldl_listingLine (container : Container) (text : String) (lines : List (Record × Nat)) :
    (lines.foldl (fun text line =>
      text ++ container.listingLine (line.2 * Record.width) line.1) text).toList =
      text.toList ++ lines.flatMap fun line =>
        (container.listingLine (line.2 * Record.width) line.1).toList := by
  induction lines generalizing text with
  | nil => simp
  | cons line lines induction =>
      rw [List.foldl_cons, induction, String.toList_append, List.flatMap_cons, List.append_assoc]

theorem lines_cons (container : Container) (index : Nat) (record : Record) (code : List Record) :
    container.lines index (record :: code) =
      (Text.alignRight 8 (toString (index * Record.width))).toList ++ ' ' :: ' ' ::
        (record.render.toList ++ remark (container.symbol? record.slot) ++
          '\n' :: container.lines (index + 1) code) := by
  unfold lines
  rw [List.zipIdx_cons, List.flatMap_cons, toList_listingLine]
  simp

theorem toList_listing (container : Container) :
    container.listing.toList =
      "VARIABLES ".toList ++ (Nat.toDigits 10 container.varCount.toNat ++
        '\n' :: ("CODE ".toList ++ (Nat.toDigits 10 container.codeLength ++
          ' ' :: ("BYTES\n".toList ++ container.lines 0 container.code)))) := by
  unfold listing lines
  rw [foldl_listingLine]
  simp

theorem newline_not_mem_line (legible : container.Legible) (record : Record) :
    '\n' ∉ record.render.toList ++ remark (container.symbol? record.slot) := by
  rw [List.mem_append, not_or]
  refine ⟨record.newline_not_mem_render, ?_⟩
  cases named : container.symbol? record.slot with
  | none => simp [remark]
  | some name =>
      have whole := legible.names record.slot name named
      simp [remark, whole]

theorem lines_inj (legible : container.Legible) (readable : copy.Legible) {index : Nat}
    {code others : List Record} (own : ∀ record ∈ code, record ∈ container.code)
    (given : ∀ record ∈ others, record ∈ copy.code)
    (same : container.lines index code = copy.lines index others) :
    code = others ∧ ∀ record ∈ code, container.symbol? record.slot = copy.symbol? record.slot := by
  induction code generalizing others index with
  | nil =>
      cases others with
      | nil => simp
      | cons other others =>
          rw [lines_cons] at same
          simp [lines] at same
  | cons record code induction =>
      cases others with
      | nil =>
          rw [lines_cons] at same
          simp [lines] at same
      | cons other others =>
          rw [lines_cons, lines_cons, List.append_cancel_left_eq, List.cons.injEq,
            List.cons.injEq] at same
          obtain ⟨line, rest⟩ := Text.sign_append_inj (newline_not_mem_line legible record)
            (newline_not_mem_line readable other) same.2.2
          obtain ⟨rfl, name⟩ := Record.render_append_inj
            (legible.plain record (own record List.mem_cons_self))
            (readable.plain other (given other List.mem_cons_self)) line
          obtain ⟨rfl, names⟩ := induction
            (fun later member => own later (List.mem_cons_of_mem _ member))
            (fun later member => given later (List.mem_cons_of_mem _ member)) rest
          exact ⟨rfl, List.forall_mem_cons.2 ⟨name, names⟩⟩

theorem listing_inj (legible : container.Legible) (readable : copy.Legible)
    (same : container.listing = copy.listing) :
    container.varCount = copy.varCount ∧ container.code = copy.code ∧
      ∀ record ∈ container.code, container.symbol? record.slot = copy.symbol? record.slot := by
  have texts := congrArg String.toList same
  rw [toList_listing, toList_listing, List.append_cancel_left_eq] at texts
  obtain ⟨count, after⟩ := Text.toDigits_append_inj (by simp) (by simp) texts
  rw [List.cons.injEq, List.append_cancel_left_eq] at after
  obtain ⟨_, last⟩ := Text.toDigits_append_inj (by simp) (by simp) after.2
  rw [List.cons.injEq, List.append_cancel_left_eq] at last
  obtain ⟨code, names⟩ :=
    lines_inj legible readable (fun _ own => own) (fun _ given => given) last.2
  exact ⟨UInt16.toNat_inj.1 count, code, names⟩

end Container

end Bytecode

namespace Program

open Bytecode

theorem isBlank_of_mem_symbols {phrases : Array Phrase} {symbol : Slot × String}
    (member : symbol ∈ (ofPhrases phrases).symbols) :
    ∀ c ∈ symbol.2.toList, Text.isBlank c = false := by
  obtain ⟨phrase, _, named⟩ := exists_phrase_of_mem_symbols member
  obtain ⟨word, spelled, same⟩ := List.mem_map.1 (Phrase.mem_words_of_name? named)
  rw [← same, String.toList_ofList]
  exact Text.isBlank_of_mem_words spelled

theorem legible_of_compile {phrases : Array Phrase} {container : Container}
    (compiled : (ofPhrases phrases).compile = .ok container) : container.Legible := by
  have linked := wellLinked_ofPhrases phrases
  obtain ⟨layout, compiles, code, _, symbols⟩ := compiles_of_compile linked compiled
  constructor
  · intro record member
    rw [code, compiles.codeBefore_eq (Nat.le_refl _), List.mem_append, List.mem_flatMap] at member
    rcases member with first | ⟨address, inside, own⟩
    · exact (compiles.allows_prologue record first).plain
    · exact (compiles.allows_recordsAt linked (List.mem_range.1 inside) record own).1.plain
  · intro slot name named ended
    obtain ⟨before, after, shape, _⟩ := List.lookup_eq_some_iff.1 named
    have member : (slot, name) ∈ (ofPhrases phrases).symbols := by
      rw [← symbols, shape]
      simp
    have solid := isBlank_of_mem_symbols member '\n' ended
    exact absurd solid (by decide)

/-- Compiled sources with the same listing agree in their code, in the number of their variables
and in the names that the code uses. -/
theorem listing_loses_nothing {source other : String} {container copy : Container}
    (compiled : (ofSource source).compile = .ok container)
    (copied : (ofSource other).compile = .ok copy)
    (same : container.listing = copy.listing) :
    container.varCount = copy.varCount ∧ container.code = copy.code ∧
      ∀ record ∈ container.code, container.symbol? record.slot = copy.symbol? record.slot :=
  Container.listing_inj (legible_of_compile compiled) (legible_of_compile copied) same

/-- A name that no record uses is not listed. -/
theorem listing_loses_no_loop :
    ∃ container copy, (ofSource "INCR Σ;while y").compile = .ok container ∧
      (ofSource "incr σ; while z").compile = .ok copy ∧ container ≠ copy ∧
      container.listing = copy.listing ∧ container.varCount = copy.varCount ∧
      container.code = copy.code ∧
      ∀ record ∈ container.code, container.symbol? record.slot = copy.symbol? record.slot := by
  have first : (ofSource "INCR Σ;while y").compile =
      .ok ⟨2, [.inc 0], [(0, "σ"), (1, "y")], by decide⟩ := by decide +kernel
  have second : (ofSource "incr σ; while z").compile =
      .ok ⟨2, [.inc 0], [(0, "σ"), (1, "z")], by decide⟩ := by decide +kernel
  exact ⟨_, _, first, second, by decide, rfl, listing_loses_nothing first second rfl⟩

end Program

end Abacus
