import Std.Data.String.ToNat
import Mathlib.Data.List.Nodup
import Abacus.Proofs.Linking

/-!
The table of slots after any row of requests. Names are asked for one after another, some of them
again, and some in vain once the table is full. Main statement: names and slots stay in bijection,
the names are the first distinct ones that were asked for, and a request is either answered by the
slot under which its name is found from then on or refused by a full table, which stays as it was.
The slots of a program are such a table, for the names in its phrases.
-/

namespace Abacus

namespace Slots

def ofNames (names : List String) : Slots :=
  names.foldl (fun slots name => (slots.assign name).2) {}

theorem ofNames_concat (names : List String) (name : String) :
    ofNames (names ++ [name]) = ((ofNames names).assign name).2 := by
  unfold ofNames
  rw [List.foldl_append]
  rfl

theorem sound_ofNames (names : List String) : (ofNames names).Sound := by
  induction names using List.reverseRecOn with
  | nil => exact sound_empty
  | append_singleton names name induction =>
      rw [ofNames_concat]
      exact sound_assign induction name

theorem names_ofNames (names : List String) :
    (ofNames names).names.toList = firstNames names := by
  induction names using List.reverseRecOn with
  | nil => rfl
  | append_singleton names name induction =>
      rw [ofNames_concat]
      exact names_assign (sound_ofNames names) induction name

theorem firstNames_of_nodup {names : List String} (nodup : names.Nodup)
    (room : names.length ≤ capacity) : firstNames names = names := by
  induction names using List.reverseRecOn with
  | nil => rfl
  | append_singleton names name induction =>
      rw [← List.concat_eq_append, List.nodup_concat] at nodup
      rw [List.length_append, List.length_singleton] at room
      rw [firstNames_concat, induction nodup.2 (by omega), if_neg]
      rintro (seen | full)
      · exact nodup.1 seen
      · omega

/-- No name stands twice, since the index has one slot for it. -/
theorem Sound.nodup {slots : Slots} (sound : slots.Sound) : slots.names.toList.Nodup := by
  rw [List.nodup_iff_getElem?_ne_getElem?]
  intro first second before inside same
  rw [Array.length_toList] at inside
  rw [Array.getElem?_toList, Array.getElem?_toList] at same
  have value := sound.toNat_place inside
  have there := Array.getElem?_eq_getElem inside
  have named : slots.name? second.toUInt16 = some slots.names[second] := by
    rw [name?, value, there]
  -- The earlier place bears the same name, so it is the place of the same slot.
  have place := sound.place_eq (same.trans there) named
  omega

theorem Sound.get?_assign {slots : Slots} (sound : slots.Sound) {other : String} {slot : Slot}
    (known : slots.get? other = some slot) (name : String) :
    (slots.assign name).2.get? other = some slot := by
  have named := (sound.index_iff other slot).1 known
  apply ((sound_assign sound name).index_iff other slot).2
  rcases assign_cases sound name with ⟨_, _, same⟩ | ⟨_, _, pushed⟩ | ⟨_, _, same⟩
  · rw [same]
    exact named
  · rw [pushed]
    exact name?_push name named
  · rw [same]
    exact named

theorem get?_ofNames_append {names : List String} {name : String} {slot : Slot}
    (known : (ofNames names).get? name = some slot) (later : List String) :
    (ofNames (names ++ later)).get? name = some slot := by
  induction later using List.reverseRecOn with
  | nil =>
      rw [List.append_nil]
      exact known
  | append_singleton later other induction =>
      rw [← List.append_assoc, ofNames_concat]
      exact (sound_ofNames (names ++ later)).get?_assign induction other

/-- The answer to a request for a name, by the tables before and after it. -/
structure Answers (before : Slots) (name : String) (answer : Except Fault Slot)
    (after : Slots) : Prop where
  given : ∀ slot, answer = .ok slot ↔ after.get? name = some slot
  kept : ∀ other slot, before.get? other = some slot → after.get? other = some slot
  refused : ∀ fault, answer = .error fault ↔
    fault = ⟨.overflow, .unknown, .tooManyVariables⟩ ∧ name ∉ before.names ∧ before.size = 65535
  unchanged : ∀ fault, answer = .error fault → after = before

theorem answers_assign {slots : Slots} (sound : slots.Sound) (name : String) :
    slots.Answers name (slots.assign name).1 (slots.assign name).2 := by
  have kept := fun other slot (known : slots.get? other = some slot) =>
    sound.get?_assign known name
  rcases assign_cases sound name with ⟨slot, named, same⟩ | ⟨absent, room, pushed⟩ |
    ⟨absent, full, same⟩
  · have found := (sound.index_iff name slot).2 named
    have present : name ∈ slots.names := Array.mem_of_getElem? named
    rw [same] at kept ⊢
    exact ⟨by simp [found], kept, by simp [present], by simp⟩
  · have spare : slots.size ≠ 65535 := Nat.ne_of_lt room
    rw [pushed] at kept ⊢
    exact ⟨by simp [get?], kept, by simp [spare], by simp⟩
  · have unknown : ∀ slot, slots.get? name ≠ some slot := by
      intro slot found
      exact absent (sound.mem_iff.2 ⟨slot, found⟩)
    rw [same] at kept ⊢
    refine ⟨by simp [unknown], kept, ?_, by simp⟩
    intro fault
    rw [Except.error.injEq]
    exact ⟨fun given => ⟨given.symm, absent, full⟩, fun given => given.1.symm⟩

/-- After any row of requests, with repeats and refusals, the table is a bijection between slots and
the first distinct names. The next request gives the slot that its name has afterwards, or is
refused because the name is new and the table full; no name ever loses its slot. -/
theorem slots_stay_bijective (requests : List String) :
    (ofNames requests).names.toList.Nodup ∧ (ofNames requests).size ≤ 65535 ∧
      (∀ name slot, (ofNames requests).get? name = some slot ↔
        (ofNames requests).name? slot = some name) ∧
      (ofNames requests).names.toList = requests.eraseDups.take 65535 ∧
      (∀ name, (ofNames requests).Answers name ((ofNames requests).assign name).1
        ((ofNames requests).assign name).2) ∧
      ∀ later name slot, (ofNames requests).get? name = some slot →
        (ofNames (requests ++ later)).get? name = some slot := by
  have sound := sound_ofNames requests
  refine ⟨sound.nodup, sound.fits, sound.index_iff, names_ofNames requests, ?_, ?_⟩
  · exact answers_assign sound
  · intro later name slot known
    exact get?_ofNames_append known later

/-- As many names as there is room for, each of them the numeral of its slot. -/
def numerals : List String := (List.range 65535).map Nat.repr

theorem firstNames_numerals : firstNames numerals = numerals := by
  apply firstNames_of_nodup
  · exact List.nodup_range.map fun _ _ => Nat.repr_inj.1
  · rw [numerals, List.length_map, List.length_range]
    exact Nat.le_refl 65535

/-- A full table refuses the next name, and still answers for those it has. -/
theorem slots_stay_bijective_numerals :
    (ofNames numerals).size = 65535 ∧
      ((ofNames numerals).assign "65535").1 =
        .error ⟨.overflow, .unknown, .tooManyVariables⟩ ∧
      ((ofNames numerals).assign "65535").2 = ofNames numerals ∧
      ((ofNames numerals).assign "7").1 = .ok 7 := by
  obtain ⟨_, _, bijection, names, answers, _⟩ := slots_stay_bijective numerals
  have held : (ofNames numerals).names.toList = numerals := names.trans firstNames_numerals
  have full : (ofNames numerals).size = 65535 := by
    rw [size, ← Array.length_toList, held, numerals, List.length_map, List.length_range]
  have absent : "65535" ∉ (ofNames numerals).names := by
    rw [← Array.mem_toList_iff, held, numerals, List.mem_map]
    rintro ⟨number, inside, same⟩
    have equal : number = 65535 := Nat.repr_inj.1 same
    rw [equal, List.mem_range] at inside
    exact Nat.lt_irrefl _ inside
  have named : (ofNames numerals).name? 7 = some "7" := by
    rw [name?, ← Array.getElem?_toList, held, numerals, List.getElem?_map,
      List.getElem?_range (by decide)]
    rfl
  have refused := ((answers "65535").refused _).2 ⟨rfl, absent, full⟩
  have known := (answers "7").kept "7" 7 ((bijection "7" 7).2 named)
  exact ⟨full, refused, (answers "65535").unchanged _ refused, ((answers "7").given 7).2 known⟩

example : (ofNames ["y", "x", "y"]).names = #["y", "x"] ∧
    (ofNames ["y", "x", "y"]).get? "x" = some 1 := by
  decide +kernel

end Slots

namespace Program

theorem slots_foldl_next (phrases : List Phrase) :
    (phrases.foldl Linking.next {}).slots = Slots.ofNames (phrases.filterMap Phrase.name?) := by
  induction phrases using List.reverseRecOn with
  | nil => rfl
  | append_singleton phrases phrase induction =>
      have last : ((phrases ++ [phrase]).foldl Linking.next {}).slots =
          (phrase.link (phrases.foldl Linking.next {}).slots).2 := by
        rw [List.foldl_append]
        rfl
      rw [last, phrase.slots_link, induction, List.filterMap_append]
      cases named : phrase.name? with
      | none => simp [named]
      | some name => simp [named, Slots.ofNames_concat]

/-- The slots of a program are those that the names in its phrases were given in turn. -/
theorem slots_ofPhrases (phrases : Array Phrase) :
    (ofPhrases phrases).slots = Slots.ofNames (phrases.toList.filterMap Phrase.name?) := by
  rw [← slots_foldl_next, Array.foldl_toList]
  rfl

end Program

end Abacus
