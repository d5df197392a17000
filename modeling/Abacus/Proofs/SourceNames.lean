import Abacus.Bytecode.Compile
import Abacus.Proofs.Linking

/-!
Names that come from a source text. A semicolon ends a phrase, lower-casing makes no new
semicolons, and a name is a word of its phrase. Main statement: no name of a program that was read
from a source holds a semicolon.
-/

namespace Abacus

namespace Text

theorem mem_of_mem_splitOnP {blank : Char → Bool} {text piece : List Char}
    (member : piece ∈ text.splitOnP blank) {c : Char} (inside : c ∈ piece) : c ∈ text := by
  induction text generalizing piece with
  | nil =>
      rw [List.splitOnP_nil, List.mem_singleton] at member
      exact member ▸ inside
  | cons first text induction =>
      rw [List.splitOnP_cons_eq_if_modifyHead] at member
      split at member
      · rcases List.mem_cons.1 member with rfl | later
        · cases inside
        · exact List.mem_cons_of_mem _ (induction later inside)
      · obtain ⟨head, pieces, cut⟩ := List.exists_cons_of_ne_nil (List.splitOnP_ne_nil blank text)
        rw [cut] at member induction
        rcases List.mem_cons.1 member with rfl | later
        · rcases List.mem_cons.1 inside with rfl | own
          · exact List.mem_cons_self
          · exact List.mem_cons_of_mem _ (induction List.mem_cons_self own)
        · exact List.mem_cons_of_mem _ (induction (List.mem_cons_of_mem _ later) inside)

theorem mem_of_mem_words {text word : List Char} (member : word ∈ words text) {c : Char}
    (inside : c ∈ word) : c ∈ text :=
  mem_of_mem_splitOnP (List.mem_filter.1 member).1 inside

theorem mem_of_mem_trim {text : List Char} {c : Char} (inside : c ∈ trim text) : c ∈ text := by
  rw [trim, List.mem_reverse] at inside
  have kept := List.mem_reverse.1 ((List.dropWhile_sublist _).subset inside)
  exact (List.dropWhile_sublist _).subset kept

/-- The lower-case forms of the capitals beyond ASCII come after the semicolon. -/
theorem semicolon_lt_of_mem_lowerStrides :
    ∀ stride ∈ lowerStrides, (0x3B : Int) < stride.first + stride.shift := by
  decide +kernel

theorem eq_semicolon_of_toLower {c : Char} (ascii : c.toNat < 0x80) (same : c.toLower = ';') :
    c = ';' := by
  have all : ∀ point < 0x80, (Char.ofNat point).toLower = ';' → point = 0x3B := by decide
  have point := all c.toNat ascii (by rwa [Char.ofNat_toNat])
  exact Char.toNat_inj.1 point

theorem eq_semicolon_of_ofNat {point : Nat} (same : Char.ofNat point = ';') : point = 0x3B := by
  by_cases valid : point.isValidChar
  · have value : (Char.ofNat point).toNat = point := by
      rw [Char.ofNat, dif_pos valid]
      rfl
    rw [← value, same]
    rfl
  · rw [Char.ofNat, dif_neg valid] at same
    cases same

theorem eq_semicolon_of_mem_lowerChar {c : Char} (member : ';' ∈ lowerChar c) : c = ';' := by
  unfold lowerChar at member
  split at member
  · rename_i ascii
    exact eq_semicolon_of_toLower ascii (List.mem_singleton.1 member).symm
  · split at member
    · exact absurd member (by decide)
    · split at member
      · -- A capital beyond ASCII goes to a point that is past the semicolon.
        rename_i stride found
        have covers := List.find?_some found
        have above := semicolon_lt_of_mem_lowerStrides stride (List.mem_of_find?_eq_some found)
        have point := eq_semicolon_of_ofNat (List.mem_singleton.1 member).symm
        simp only [CaseStride.covers, Bool.and_eq_true, decide_eq_true_eq] at covers
        omega
      · exact (List.mem_singleton.1 member).symm

theorem eq_semicolon_of_mem_lowerAt {before after : List Char} {c : Char}
    (member : ';' ∈ lowerAt before c after) : c = ';' := by
  unfold lowerAt at member
  split at member
  · split at member
    · exact absurd member (by decide)
    · exact absurd member (by decide)
  · exact eq_semicolon_of_mem_lowerChar member

theorem semicolon_mem_of_mem_lowerFrom {before text : List Char}
    (member : ';' ∈ lowerFrom before text) : ';' ∈ text := by
  induction text generalizing before with
  | nil => cases member
  | cons c after induction =>
      rw [lowerFrom, List.mem_append] at member
      rcases member with here | later
      · rw [eq_semicolon_of_mem_lowerAt here]
        exact List.mem_cons_self
      · exact List.mem_cons_of_mem _ (induction later)

/-- Lower-casing makes no semicolons. -/
theorem semicolon_mem_of_mem_lower {text : List Char} (member : ';' ∈ lower text) : ';' ∈ text := by
  rw [lower_eq_lowerFrom] at member
  exact semicolon_mem_of_mem_lowerFrom member

end Text

namespace Phrase

def Uncut (phrase : Phrase) : Prop := ';' ∉ phrase.text.toList

theorem uncut_ofRaw {line : Nat} {raw : List Char} (free : ';' ∉ raw) :
    (ofRaw line raw).Uncut := by
  intro member
  rw [ofRaw, String.toList_ofList] at member
  exact free (Text.mem_of_mem_trim (Text.semicolon_mem_of_mem_lower member))

theorem mem_words_of_name? {phrase : Phrase} {name : String} (named : phrase.name? = some name) :
    name ∈ phrase.words := by
  rcases parse_cases phrase with ⟨_, parsed⟩ | ⟨statement, spelled, parsed⟩ | ⟨_, _, parsed⟩
  · simp [name?, parsed] at named
  · simp only [name?, parsed] at named
    rw [spelled.2, named]
    simp
  · simp [name?, parsed] at named

theorem mem_text_of_name? {phrase : Phrase} {name : String} (named : phrase.name? = some name)
    {c : Char} (inside : c ∈ name.toList) : c ∈ phrase.text.toList := by
  obtain ⟨piece, member, rfl⟩ := List.mem_map.1 (mem_words_of_name? named)
  rw [String.toList_ofList] at inside
  exact Text.mem_of_mem_words member inside

end Phrase

namespace Scan

structure Uncut (scan : Scan) : Prop where
  pending : ';' ∉ scan.pending
  closed : ∀ phrase ∈ scan.closed, phrase.Uncut

variable {scan : Scan}

theorem Uncut.close (uncut : scan.Uncut) : scan.close.Uncut := by
  refine ⟨by simp [Scan.close], ?_⟩
  intro phrase member
  rcases Array.mem_push.1 member with earlier | rfl
  · exact uncut.closed phrase earlier
  · apply Phrase.uncut_ofRaw
    rw [List.mem_reverse]
    exact uncut.pending

theorem Uncut.next (uncut : scan.Uncut) (c : Char) : (scan.next c).Uncut := by
  rw [Scan.next]
  split
  · exact uncut.close
  · rename_i other
    refine ⟨?_, uncut.closed⟩
    intro member
    rcases List.mem_cons.1 member with same | earlier
    · exact other same.symm
    · exact uncut.pending earlier

theorem Uncut.foldl_next (uncut : scan.Uncut) (source : List Char) :
    (source.foldl Scan.next scan).Uncut := by
  induction source generalizing scan with
  | nil => exact uncut
  | cons c source induction => exact induction (uncut.next c)

theorem Uncut.finish (uncut : scan.Uncut) :
    ∀ phrase ∈ scan.finish, phrase.Uncut := by
  rw [Scan.finish]
  split
  · exact uncut.closed
  · exact uncut.close.closed

end Scan

theorem Phrase.uncut_of_mem_scan (source : List Char) :
    ∀ phrase ∈ scan source, phrase.Uncut := by
  have start : Scan.Uncut {} := ⟨by simp, by simp⟩
  exact (start.foldl_next source).finish

namespace Program

theorem exists_phrase_of_mem_names {phrases : Array Phrase} {name : String}
    (member : name ∈ (ofPhrases phrases).slots.names) :
    ∃ phrase ∈ phrases, phrase.name? = some name := by
  have keeps := ofPhrases_keeps phrases
  rw [← Array.mem_toList_iff, keeps.names, Slots.firstNames] at member
  obtain ⟨phrase, inside, named⟩ :=
    List.mem_filterMap.1 (List.mem_eraseDups.1 (List.mem_of_mem_take member))
  exact ⟨phrase, Array.mem_toList_iff.1 inside, named⟩

theorem exists_phrase_of_mem_symbols {phrases : Array Phrase} {symbol : Slot × String}
    (member : symbol ∈ (ofPhrases phrases).symbols) :
    ∃ phrase ∈ phrases, phrase.name? = some symbol.2 := by
  obtain ⟨⟨name, index⟩, held, rfl⟩ := List.mem_map.1 member
  exact exists_phrase_of_mem_names (Array.mem_toList_iff.1 (List.fst_mem_of_mem_zipIdx held))

theorem semicolon_not_mem_symbols (source : String) :
    ∀ symbol ∈ (ofSource source).symbols, ';' ∉ symbol.2.toList := by
  intro symbol member inside
  obtain ⟨phrase, scanned, named⟩ := exists_phrase_of_mem_symbols member
  exact Phrase.uncut_of_mem_scan source.toList phrase scanned
    (Phrase.mem_text_of_name? named inside)

end Program

end Abacus
