import Mathlib.Data.List.Induction
import Abacus.Program
import Abacus.Proofs.Parsing

/-!
What linking keeps. The slot table is a bijection between names and slots, which holds the
distinct names of the phrases in the order of their first appearance, as far as there is room.
Each entry of a program is faithful to its phrase: its keyword is the phrase's, and the name of
its slot is the name in the phrase.
-/

namespace Abacus

namespace Slots

/-- The index and the list of names say the same, and every slot fits its type. -/
structure Sound (slots : Slots) : Prop where
  fits : slots.size ≤ capacity
  index_iff : ∀ name slot, slots.get? name = some slot ↔ slots.name? slot = some name

theorem sound_empty : Sound {} := by
  refine ⟨by simp [size], ?_⟩
  intro name slot
  simp [get?, name?]

theorem Sound.toNat_place {slots : Slots} (sound : slots.Sound) {place : Nat}
    (bounded : place < slots.names.size) : place.toUInt16.toNat = place := by
  have fits := sound.fits
  simp only [size, capacity] at fits
  apply Nat.mod_eq_of_lt
  omega

theorem Sound.mem_iff {slots : Slots} (sound : slots.Sound) {name : String} :
    name ∈ slots.names ↔ ∃ slot, slots.get? name = some slot := by
  constructor
  · intro member
    obtain ⟨place, bounded, rfl⟩ := Array.mem_iff_getElem.1 member
    refine ⟨place.toUInt16, (sound.index_iff _ _).2 ?_⟩
    rw [name?, sound.toNat_place bounded, Array.getElem?_eq_getElem bounded]
  · rintro ⟨slot, found⟩
    exact Array.mem_of_getElem? ((sound.index_iff _ _).1 found)

theorem Sound.lt_size {slots : Slots} {name : String} {slot : Slot}
    (named : slots.name? slot = some name) : slot.toNat < slots.size := by
  exact (Array.getElem?_eq_some_iff.1 named).1

theorem Sound.place_eq {slots : Slots} (sound : slots.Sound) {name : String} {slot : Slot}
    {place : Nat} (there : slots.names[place]? = some name)
    (named : slots.name? slot = some name) : place = slot.toNat := by
  have value := sound.toNat_place (Array.getElem?_eq_some_iff.1 there).1
  have other : slots.name? place.toUInt16 = some name := by
    unfold name?
    rw [value]
    exact there
  rw [← sound.index_iff] at other named
  rw [other] at named
  rw [← Option.some.inj named, value]

/-- All that asking for a slot can do. -/
theorem assign_cases {slots : Slots} (sound : slots.Sound) (name : String) :
    (∃ slot, slots.name? slot = some name ∧ slots.assign name = (.ok slot, slots)) ∨
      (name ∉ slots.names ∧ slots.size < capacity ∧
        slots.assign name = (.ok slots.size.toUInt16,
          { names := slots.names.push name
            index := slots.index.insert name slots.size.toUInt16 })) ∨
      (name ∉ slots.names ∧ slots.size = capacity ∧
        slots.assign name =
          (.error { kind := .overflow, detail := .tooManyVariables }, slots)) := by
  cases found : slots.get? name with
  | some slot =>
      refine .inl ⟨slot, (sound.index_iff name slot).1 found, ?_⟩
      simp only [get?] at found
      simp [assign, found]
  | none =>
      have absent : name ∉ slots.names := by
        rw [sound.mem_iff]
        simp [found]
      simp only [get?] at found
      right
      by_cases room : slots.size < capacity
      · refine .inl ⟨absent, room, ?_⟩
        simp only [size] at room
        simp [assign, found, room, size]
      · have full : slots.size = capacity := Nat.le_antisymm sound.fits (Nat.le_of_not_lt room)
        refine .inr ⟨absent, full, ?_⟩
        simp only [size] at room
        simp [assign, found, room]

/-- Names keep their slots while others are added. -/
theorem name?_push {slots : Slots} {index : Std.TreeMap String Slot} (other : String)
    {slot : Slot} {name : String} (named : slots.name? slot = some name) :
    name? { names := slots.names.push other, index } slot = some name := by
  have bounded := Sound.lt_size named
  simp only [size] at bounded
  simp only [name?] at named ⊢
  rw [Array.getElem?_push_lt bounded, ← Array.getElem?_eq_getElem bounded]
  exact named

theorem sound_push {slots : Slots} (sound : slots.Sound) {name : String}
    (absent : name ∉ slots.names) (room : slots.size < capacity) :
    Sound { names := slots.names.push name
            index := slots.index.insert name slots.size.toUInt16 } := by
  have small : slots.size < UInt16.size := by
    simp only [capacity] at room
    simp only [UInt16.size]
    omega
  refine ⟨by simp only [size, Array.size_push]; exact room, ?_⟩
  intro other slot
  have known := sound.index_iff other slot
  simp only [get?, name?] at known ⊢
  rw [Std.TreeMap.getElem?_insert, Array.getElem?_push]
  by_cases same : name = other
  · subst same
    have unknown : slots.names[slot.toNat]? ≠ some name := fun named =>
      absent (Array.mem_of_getElem? named)
    by_cases last : slot.toNat = slots.names.size
    · have slotEq : slots.size.toUInt16 = slot := by
        apply UInt16.toNat_inj.1
        simp only [Nat.toUInt16_eq, UInt16.toNat_ofNat', size, last]
        exact Nat.mod_eq_of_lt small
      simp [last, slotEq]
    · have slotNe : slots.size.toUInt16 ≠ slot := by
        rintro rfl
        apply last
        simp only [Nat.toUInt16_eq, UInt16.toNat_ofNat', size]
        exact Nat.mod_eq_of_lt small
      simp [last, slotNe, unknown]
  · have different : compare name other ≠ .eq := by simpa using same
    rw [if_neg different, known]
    by_cases last : slot.toNat = slots.names.size
    · simp [last, same]
    · simp [last]

theorem sound_assign {slots : Slots} (sound : slots.Sound) (name : String) :
    (slots.assign name).2.Sound := by
  rcases assign_cases sound name with ⟨_, _, same⟩ | ⟨absent, room, pushed⟩ | ⟨_, _, same⟩
  · rw [same]
    exact sound
  · rw [pushed]
    exact sound_push sound absent room
  · rw [same]
    exact sound

/-- The names a table holds after a row of requests: the first of the distinct ones. -/
def firstNames (names : List String) : List String := names.eraseDups.take capacity

theorem firstNames_concat (names : List String) (name : String) :
    firstNames (names ++ [name]) =
      if name ∈ firstNames names ∨ (firstNames names).length = capacity then firstNames names
      else firstNames names ++ [name] := by
  have length := List.length_take (i := capacity) (l := names.eraseDups)
  unfold firstNames at *
  rw [List.eraseDups_append]
  by_cases seen : name ∈ names
  · have nothing : [name].removeAll names = [] := by simp [List.removeAll, seen]
    rw [nothing, List.eraseDups_nil, List.append_nil, if_pos]
    by_cases kept : name ∈ names.eraseDups.take capacity
    · exact .inl kept
    · -- A name that was seen and is not held came too late.
      right
      by_contra short
      apply kept
      rw [List.take_of_length_le (by omega)]
      exact List.mem_eraseDups.2 seen
  · have fresh : [name].removeAll names = [name] := by simp [List.removeAll, seen]
    have unheld : name ∉ names.eraseDups.take capacity := fun held =>
      seen (List.mem_eraseDups.1 (List.mem_of_mem_take held))
    rw [fresh, show [name].eraseDups = [name] from rfl, List.take_append]
    by_cases full : (names.eraseDups.take capacity).length = capacity
    · rw [if_pos (.inr full), show capacity - names.eraseDups.length = 0 by omega]
      simp
    · have room : names.eraseDups.length < capacity := by omega
      rw [if_neg (fun held => held.elim unheld full),
        List.take_of_length_le (l := [name]) (by simp; omega)]

theorem names_assign {slots : Slots} (sound : slots.Sound) {names : List String}
    (held : slots.names.toList = firstNames names) (name : String) :
    (slots.assign name).2.names.toList = firstNames (names ++ [name]) := by
  have member : name ∈ slots.names ↔ name ∈ firstNames names := by
    rw [← held, Array.mem_toList_iff]
  have size : slots.size = (firstNames names).length := by
    rw [← held, Array.length_toList]
    rfl
  rw [firstNames_concat]
  rcases assign_cases sound name with ⟨slot, named, same⟩ | ⟨absent, room, pushed⟩ |
    ⟨absent, full, same⟩
  · have present : name ∈ slots.names := Array.mem_of_getElem? named
    rw [same, if_pos (.inl (member.1 present))]
    exact held
  · rw [pushed, if_neg]
    · simp [held]
    · rintro (present | full)
      · exact absent (member.2 present)
      · omega
  · rw [same, if_pos (.inr (by omega))]
    exact held

end Slots

/-- An entry is what its phrase parses to, with the slot in place of the name. An entry is
refused for want of room only by a table that is full without its name. -/
inductive Entry.Faithful (slots : Slots) : Entry → Prop
  | skipped {phrase : Phrase} (blank : phrase.isSkipped = true) :
      Faithful slots ⟨phrase, .skipped⟩
  | op {phrase : Phrase} {statement : Statement String} {op : Op}
      (spelled : phrase.Spells statement) (keyword : op.keyword = statement.keyword)
      (operand : op.operand?.map slots.name? = statement.operand?.map some) :
      Faithful slots ⟨phrase, .op op⟩
  | malformed {phrase : Phrase} {fault : Fault} (refused : phrase.parse = .error fault) :
      Faithful slots ⟨phrase, .broken fault⟩
  | crowded {phrase : Phrase} {statement : Statement String} {name : String}
      (spelled : phrase.Spells statement) (operand : statement.operand? = some name)
      (absent : name ∉ slots.names) (full : slots.size = Slots.capacity) :
      Faithful slots ⟨phrase, .broken (phrase.fault .overflow .tooManyVariables)⟩

theorem Entry.Faithful.assign {slots : Slots} {entry : Entry} (sound : slots.Sound)
    (faithful : entry.Faithful slots) (name : String) : entry.Faithful (slots.assign name).2 := by
  rcases Slots.assign_cases sound name with ⟨_, _, same⟩ | ⟨_, room, pushed⟩ | ⟨_, _, same⟩
  · rw [same]
    exact faithful
  · rw [pushed]
    cases faithful with
    | skipped blank => exact .skipped blank
    | @op phrase statement op spelled keyword operand =>
        refine .op spelled keyword ?_
        cases slot : op.operand? <;> cases word : statement.operand? <;>
          simp only [slot, word, Option.map_none, Option.map_some, Option.some.injEq,
            reduceCtorEq] at operand ⊢
        exact Slots.name?_push name operand
    | malformed refused => exact .malformed refused
    | crowded spelled operand absent full => omega
  · rw [same]
    exact faithful

namespace Phrase

theorem slots_link (phrase : Phrase) (slots : Slots) :
    (phrase.link slots).2 =
      match phrase.name? with
      | some name => (slots.assign name).2
      | none => slots := by
  rcases parse_cases phrase with ⟨_, parsed⟩ | ⟨statement, _, parsed⟩ | ⟨_, _, parsed⟩
  · simp [link, name?, parsed]
  · simp only [link, name?, parsed, Statement.link]
    cases operand : statement.operand? with
    | none => rfl
    | some name =>
        dsimp only
        cases assigned : slots.assign name with
        | mk outcome after => cases outcome <;> rfl
  · simp [link, name?, parsed]

theorem faithful_link (phrase : Phrase) {slots : Slots} (sound : slots.Sound) :
    Entry.Faithful (phrase.link slots).2 ⟨phrase, (phrase.link slots).1⟩ := by
  rcases parse_cases phrase with ⟨blank, parsed⟩ | ⟨statement, spelled, parsed⟩ |
    ⟨_, detail, parsed⟩
  · simp only [link, parsed]
    exact .skipped blank
  · cases operand : statement.operand? with
    | none =>
        simp only [link, parsed, Statement.link, operand]
        exact .op spelled (by simp) (by simp [operand])
    | some name =>
        rcases Slots.assign_cases sound name with ⟨slot, named, assigned⟩ |
          ⟨_, room, assigned⟩ | ⟨absent, full, assigned⟩
        · simp only [link, parsed, Statement.link, operand, assigned]
          exact .op spelled (by simp) (by simp [operand, named])
        · simp only [link, parsed, Statement.link, operand, assigned]
          refine .op spelled (by simp) ?_
          have small : slots.names.size % 65536 = slots.names.size := by
            simp only [Slots.size, Slots.capacity] at room
            omega
          simp [operand, Slots.name?, Slots.size, small]
        · simp only [link, parsed, Statement.link, operand, assigned]
          exact .crowded spelled operand absent full
  · simp only [link, parsed]
    exact .malformed parsed

end Phrase

namespace Program

structure Linking.Keeps (phrases : List Phrase) (linking : Linking) : Prop where
  sound : linking.slots.Sound
  names : linking.slots.names.toList = Slots.firstNames (phrases.filterMap Phrase.name?)
  phrases : linking.entries.toList.map Entry.phrase = phrases
  faithful : ∀ entry ∈ linking.entries, entry.Faithful linking.slots

theorem Linking.Keeps.next {phrases : List Phrase} {linking : Linking}
    (keeps : linking.Keeps phrases) (phrase : Phrase) :
    (linking.next phrase).Keeps (phrases ++ [phrase]) := by
  have linked := Phrase.faithful_link phrase keeps.sound
  have slots := phrase.slots_link linking.slots
  have entries : (linking.next phrase).entries =
      linking.entries.push ⟨phrase, (phrase.link linking.slots).1⟩ := rfl
  have after : (linking.next phrase).slots = (phrase.link linking.slots).2 := rfl
  cases named : phrase.name? with
  | none =>
      rw [named] at slots
      dsimp only at slots
      refine ⟨?_, ?_, ?_, ?_⟩
      · rw [after, slots]
        exact keeps.sound
      · rw [after, slots, keeps.names]
        simp [named]
      · simp [entries, keeps.phrases]
      · intro entry member
        rw [entries, Array.mem_push] at member
        rw [after]
        rcases member with earlier | rfl
        · rw [slots]
          exact keeps.faithful entry earlier
        · exact linked
  | some name =>
      rw [named] at slots
      dsimp only at slots
      refine ⟨?_, ?_, ?_, ?_⟩
      · rw [after, slots]
        exact Slots.sound_assign keeps.sound name
      · rw [after, slots, Slots.names_assign keeps.sound keeps.names name]
        simp [named]
      · simp [entries, keeps.phrases]
      · intro entry member
        rw [entries, Array.mem_push] at member
        rw [after]
        rcases member with earlier | rfl
        · rw [slots]
          exact (keeps.faithful entry earlier).assign keeps.sound name
        · exact linked

theorem linking_keeps (phrases : List Phrase) :
    (phrases.foldl Linking.next {}).Keeps phrases := by
  induction phrases using List.reverseRecOn with
  | nil => exact ⟨Slots.sound_empty, rfl, rfl, by simp⟩
  | append_singleton phrases phrase induction =>
      rw [List.foldl_append]
      exact induction.next phrase

theorem ofPhrases_keeps (phrases : Array Phrase) :
    Linking.Keeps phrases.toList
      ⟨(ofPhrases phrases).entries, (ofPhrases phrases).slots⟩ := by
  have keeps := linking_keeps phrases.toList
  rw [Array.foldl_toList] at keeps
  exact keeps

structure WellLinked (program : Program) : Prop where
  sound : program.slots.Sound
  faithful : ∀ entry ∈ program.entries, entry.Faithful program.slots

theorem wellLinked_ofPhrases (phrases : Array Phrase) : (ofPhrases phrases).WellLinked :=
  ⟨(ofPhrases_keeps phrases).sound, (ofPhrases_keeps phrases).faithful⟩

theorem outline_eq_map (program : Program) :
    program.outline = program.entries.map fun entry => entry.phrase.keyword? := by
  rw [program.outline_eq, Outline.ofPhrases, Array.map_map]
  rfl

theorem size_outline (program : Program) : program.outline.size = program.size := by
  rw [outline_eq_map, Array.size_map]
  rfl

theorem WellLinked.outline_op {program : Program} (linked : program.WellLinked) {address : Nat}
    {phrase : Phrase} {op : Op} (here : program.entries[address]? = some ⟨phrase, .op op⟩) :
    program.outline[address]? = some (some op.keyword) := by
  have faithful := linked.faithful _ (Array.mem_of_getElem? here)
  rw [outline_eq_map, Array.getElem?_map, here]
  cases faithful with
  | op spelled keyword => simp [spelled.keyword?, keyword]

theorem WellLinked.outline_skipped {program : Program} (linked : program.WellLinked)
    {address : Nat} {phrase : Phrase}
    (here : program.entries[address]? = some ⟨phrase, .skipped⟩) :
    program.outline[address]? = some none := by
  have faithful := linked.faithful _ (Array.mem_of_getElem? here)
  rw [outline_eq_map, Array.getElem?_map, here]
  cases faithful with
  | skipped blank => simp [Phrase.keyword?_of_skipped blank]

/-- The fault that linking recorded for a phrase names that phrase. -/
theorem WellLinked.recorded {program : Program} (linked : program.WellLinked) {address : Nat}
    {phrase : Phrase} {fault : Fault}
    (here : program.entries[address]? = some ⟨phrase, .broken fault⟩) :
    fault.place = phrase.place ∧ (fault.kind = .badStatement ∨ fault.kind = .overflow) := by
  have faithful := linked.faithful _ (Array.mem_of_getElem? here)
  cases faithful with
  | malformed refused =>
      rcases Phrase.parse_cases phrase with ⟨_, other⟩ | ⟨_, _, other⟩ | ⟨_, detail, other⟩ <;>
        rw [other] at refused <;> cases refused
      exact ⟨rfl, .inl rfl⟩
  | crowded => exact ⟨rfl, .inr rfl⟩

theorem WellLinked.operand_lt {program : Program} (linked : program.WellLinked)
    {address : Nat} {phrase : Phrase} {op : Op} {slot : Slot}
    (here : program.entries[address]? = some ⟨phrase, .op op⟩)
    (operand : op.operand? = some slot) : slot.toNat < program.slots.size := by
  have faithful := linked.faithful _ (Array.mem_of_getElem? here)
  cases faithful with
  | @op _ statement _ _ _ named =>
      rw [operand] at named
      cases word : statement.operand? with
      | none => simp [word] at named
      | some name =>
          rw [word] at named
          exact Slots.Sound.lt_size (by simpa using named)

end Program

end Abacus
