import Abacus.Proofs.LifeCycle
import Abacus.Proofs.LowerText
import Abacus.Proofs.Pieces
import Abacus.Proofs.SourceNames

/-!
Looking variables up by name. The table bears the names of the slots, each once, and they are words
of phrases that were lowered as a whole; a name that is looked up is lowered alone, which comes to
the same. Main statement: a name as it is spelled in a source leads to the slot that its statement
was linked to, and a name that no statement was linked to leads nowhere.
-/

namespace Abacus

namespace Phrase

/-- The words of a phrase are those of its piece of source, each lowered alone. -/
theorem words_ofRaw (line : Nat) (raw : List Char) :
    (ofRaw line raw).words = (Text.words raw).map fun word => String.ofList (Text.lower word) := by
  unfold words ofRaw
  rw [String.toList_ofList, Text.words_lower, Text.words_trim, List.map_map]
  rfl

end Phrase

namespace Variables

variable {vars : Variables} {slots : Slots} {slot : Slot} {name key : String}

theorem get_eq (vars : Variables) (name : String) :
    vars.get name = ((vars.cells.find? (·.name == Text.lowered name)).map Cell.value).getD 0 := by
  unfold get
  dsimp only
  cases vars.cells.find? (·.name == Text.lowered name) <;> rfl

/-- A name of the table is found in its own cell, since no other cell bears it. -/
theorem find?_of_name? (cells : vars.cells.map Cell.name = slots.names) (sound : slots.Sound)
    (named : slots.name? slot = some key) :
    (vars.cells.find? (·.name == key)).map Cell.value = vars.fetch? slot := by
  have held := named
  unfold Slots.name? at held
  rw [← cells, Array.getElem?_map, Option.map_eq_some_iff] at held
  obtain ⟨cell, here, bears⟩ := held
  unfold fetch?
  cases found : vars.cells.find? (·.name == key) with
  | none =>
      have missed := Array.find?_eq_none.1 found cell (Array.mem_of_getElem? here)
      rw [bears, beq_self_eq_true] at missed
      exact absurd rfl missed
  | some first =>
      -- What is found first bears the name too, so that it stands at the place of the slot.
      have same := Array.find?_some found
      rw [beq_iff_eq] at same
      obtain ⟨place, there⟩ := Array.mem_iff_getElem?.1 (Array.mem_of_find?_eq_some found)
      have alone : place = slot.toNat := by
        apply sound.place_eq _ named
        rw [← cells, Array.getElem?_map, there, Option.map_some, same]
      rw [← alone, there]

theorem find?_of_not_mem (cells : vars.cells.map Cell.name = slots.names)
    (absent : key ∉ slots.names) : vars.cells.find? (·.name == key) = none := by
  rw [Array.find?_eq_none]
  intro cell member bears
  apply absent
  rw [← cells, ← beq_iff_eq.1 bears]
  exact Array.mem_map_of_mem member

theorem get_eq_fetch (cells : vars.cells.map Cell.name = slots.names) (sound : slots.Sound)
    (named : slots.name? slot = some (Text.lowered name)) : vars.get name = vars.fetch slot := by
  rw [get_eq, find?_of_name? cells sound named, fetch]

theorem get_of_not_mem (cells : vars.cells.map Cell.name = slots.names)
    (absent : Text.lowered name ∉ slots.names) : vars.get name = 0 := by
  rw [get_eq, find?_of_not_mem cells absent]
  rfl

end Variables

theorem Entry.Faithful.exists_word {slots : Slots} {entry : Entry}
    (faithful : entry.Faithful slots) {op : Op} {slot : Slot} (linked : entry.linked = .op op)
    (operand : op.operand? = some slot) :
    ∃ name, slots.name? slot = some name ∧ entry.phrase.words[1]? = some name := by
  cases faithful with
  | op spelled keyword named =>
      cases linked
      rw [operand, Option.map_some, eq_comm, Option.map_eq_some_iff] at named
      obtain ⟨name, written, held⟩ := named
      refine ⟨name, held.symm, ?_⟩
      rw [spelled.2, written]
      rfl
  | _ => cases linked

theorem Entry.Faithful.exists_op {slots : Slots} {entry : Entry}
    (faithful : entry.Faithful slots) {name : String} (named : entry.phrase.name? = some name)
    (member : name ∈ slots.names) :
    ∃ op, entry.linked = .op op ∧ entry.phrase.operand? = some name := by
  cases faithful with
  | skipped blank => simp [Phrase.name?, Phrase.parse_eq_none_iff.2 blank] at named
  | op spelled =>
      rw [spelled.name?] at named
      exact ⟨_, rfl, spelled.operand?.trans named⟩
  | malformed refused => simp [Phrase.name?, refused] at named
  | crowded spelled operand absent =>
      rw [spelled.name?, operand] at named
      cases named
      exact absurd member absent

namespace Program

variable {state : State}

theorem exists_entry_of_mem_names {phrases : Array Phrase} {name : String}
    (member : name ∈ (ofPhrases phrases).slots.names) :
    ∃ entry ∈ (ofPhrases phrases).entries, ∃ op, entry.linked = .op op ∧
      entry.phrase.operand? = some name := by
  have keeps := ofPhrases_keeps phrases
  obtain ⟨phrase, own, named⟩ := exists_phrase_of_mem_names member
  rw [← Array.mem_toList_iff, ← keeps.phrases, List.mem_map] at own
  obtain ⟨entry, inside, rfl⟩ := own
  rw [Array.mem_toList_iff] at inside
  exact ⟨entry, inside, (keeps.faithful entry inside).exists_op named member⟩

/-- The slot of a statement bears the second word of the statement's piece of source, lowered. -/
theorem exists_spelling {source : String} {address : Nat} {op : Op} {slot : Slot}
    (linked : (ofSource source).linkedAt address = .op op) (operand : op.operand? = some slot) :
    ∃ piece word, (source.toList.splitOn ';')[address]? = some piece ∧
      (Text.words piece)[1]? = some word ∧
      (ofSource source).slots.name? slot = some (Text.lowered (String.ofList word)) := by
  unfold linkedAt at linked
  cases here : (ofSource source).entries[address]? with
  | none => simp [here] at linked
  | some entry =>
      rw [here] at linked
      have keeps := ofPhrases_keeps (Phrase.scan source.toList)
      have faithful := keeps.faithful entry (Array.mem_of_getElem? here)
      obtain ⟨name, held, written⟩ := faithful.exists_word linked operand
      have scanned : (Phrase.scan source.toList)[address]? = some entry.phrase := by
        rw [← Array.getElem?_toList, ← keeps.phrases, List.getElem?_map, Array.getElem?_toList]
        exact congrArg (Option.map Entry.phrase) here
      obtain ⟨line, piece, cut, made⟩ := Phrase.exists_piece_of_scan scanned
      rw [made, Phrase.ofPiece, Phrase.words_ofRaw, List.getElem?_map,
        Option.map_eq_some_iff] at written
      obtain ⟨word, second, rfl⟩ := written
      refine ⟨piece, word, cut, second, ?_⟩
      unfold Text.lowered
      rw [String.toList_ofList]
      exact held

/-- In every state of a run, the second word of a linked statement, as its piece of source spells
it, has the value in the slot of the statement; and a name that is no operand of a linked statement
has the value zero. -/
theorem spelling_finds_slot (source : String) (reachable : (ofSource source).Reachable state) :
    (∀ address op slot, (ofSource source).linkedAt address = .op op → op.operand? = some slot →
        ∃ piece word, (source.toList.splitOn ';')[address]? = some piece ∧
          (Text.words piece)[1]? = some word ∧ slot.toNat < state.vars.size ∧
          state.vars.get (String.ofList word) = state.vars.fetch slot) ∧
      ∀ name, (∀ entry ∈ (ofSource source).entries, ∀ op, entry.linked = .op op →
          entry.phrase.operand? ≠ some (Text.lowered name)) → state.vars.get name = 0 := by
  have cells := named_of_reachable reachable
  constructor
  · intro address op slot linked operand
    obtain ⟨piece, word, cut, second, held⟩ := exists_spelling linked operand
    have sound := (wellLinked_ofPhrases (Phrase.scan source.toList)).sound
    refine ⟨piece, word, cut, second, ?_, Variables.get_eq_fetch cells sound held⟩
    have size := congrArg Array.size cells
    rw [Array.size_map] at size
    unfold Variables.size
    rw [size]
    exact Slots.Sound.lt_size held
  · intro name unlinked
    apply Variables.get_of_not_mem cells
    intro member
    obtain ⟨entry, inside, op, linked, operand⟩ := exists_entry_of_mem_names member
    exact unlinked entry inside op linked operand

/-- A name that ends in a capital sigma, counted twice in two spellings, a sigma of its own, and a
phrase that is no statement. -/
def sigmas : String := "  INCR\u2003ΑΣ ;clear Σ\n;incr\tας;END x"

theorem spelling_finds_slot_of_sigmas :
    ∃ state, (ofSource sigmas).Reachable state ∧
      (ofSource sigmas).linkedAt 0 = .op (.incr 0) ∧ state.vars.fetch 0 = 2 ∧
      state.vars.get "ΑΣ" = 2 ∧ state.vars.get "X" = 0 := by
  have reachable : (ofSource sigmas).Reachable
      ((ofSource sigmas).execute 3 (.start (ofSource sigmas))).2 := .execute 3 .start
  have linked : (ofSource sigmas).linkedAt 0 = .op (.incr 0) := by decide +kernel
  have pieces : (sigmas.toList.splitOn ';')[0]? = some "  INCR\u2003ΑΣ ".toList := by
    decide +kernel
  have words : (Text.words "  INCR\u2003ΑΣ ".toList)[1]? = some "ΑΣ".toList := by decide +kernel
  have value : ((ofSource sigmas).execute 3 (.start (ofSource sigmas))).2.vars.fetch 0 = 2 := by
    decide +kernel
  have refused : ∀ entry ∈ (ofSource sigmas).entries,
      entry.phrase.operand? = some (Text.lowered "X") → entry.linked.fault?.isSome = true := by
    decide +kernel
  obtain ⟨spelled, absent⟩ := spelling_finds_slot sigmas reachable
  obtain ⟨piece, word, cut, second, _, same⟩ := spelled 0 _ 0 linked rfl
  rw [pieces, Option.some.injEq] at cut
  rw [← cut, words, Option.some.injEq] at second
  rw [← second, String.ofList_toList, value] at same
  refine ⟨_, reachable, linked, value, same, absent "X" ?_⟩
  intro entry member op statement operand
  have broken := refused entry member operand
  rw [statement] at broken
  cases broken

end Program

end Abacus
