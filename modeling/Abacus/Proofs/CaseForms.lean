import Mathlib.Algebra.Group.Nat.Defs
import Abacus.Text.LowerCase

/-!
Where the case table leads. The characters that have another lower-case form and those that come
in their place are two rows of ranges read off the table; a row of ranges is also a number with a
bit for each of its code points, so that two rows are compared in one step. Main statements:
lowering leaves a character as it is, or puts small characters in place of a capital (`LowersTo`);
small characters, capitals and blanks are apart; no blank is cased or case-ignorable; and the case
of an ASCII letter is nothing that its neighbours could see.
-/

namespace Abacus.Text

section Bits

theorem inRanges_cons (range : Nat × Nat) (rest : List (Nat × Nat)) (point : Nat) :
    inRanges (range :: rest) point =
      (decide (range.1 ≤ point) && decide (point ≤ range.2) || inRanges rest point) := rfl

theorem inRanges_append (ranges others : List (Nat × Nat)) (point : Nat) :
    inRanges (ranges ++ others) point = (inRanges ranges point || inRanges others point) :=
  List.any_append

/-- The number whose bits are the code points in a row of ranges. -/
def bits (ranges : List (Nat × Nat)) : Nat :=
  ranges.foldr (fun range rest => (2 ^ (range.2 + 1 - range.1) - 1) <<< range.1 ||| rest) 0

theorem testBit_bits (ranges : List (Nat × Nat)) (point : Nat) :
    (bits ranges).testBit point = inRanges ranges point := by
  induction ranges with
  | nil => exact Nat.zero_testBit point
  | cons range rest induction =>
      have bit : ((2 ^ (range.2 + 1 - range.1) - 1) <<< range.1).testBit point =
          (decide (range.1 ≤ point) && decide (point ≤ range.2)) := by
        rw [Nat.testBit_shiftLeft, Nat.testBit_two_pow_sub_one, Bool.eq_iff_iff]
        simp only [Bool.and_eq_true, decide_eq_true_eq]
        omega
      unfold bits at induction ⊢
      rw [List.foldr_cons, Nat.testBit_or, bit, induction, inRanges_cons]

/-- Rows of ranges without a common bit have no common code point. -/
theorem inRanges_eq_false_of_bits {ranges others : List (Nat × Nat)}
    (apart : bits ranges &&& bits others = 0) {point : Nat} (inside : inRanges ranges point = true) :
    inRanges others point = false := by
  have common : (bits ranges &&& bits others).testBit point = false := by
    rw [apart, Nat.zero_testBit]
  rw [Nat.testBit_and, testBit_bits, testBit_bits, inside] at common
  exact common

theorem outside_of_bits {ranges first second : List (Nat × Nat)}
    (apart : bits ranges &&& bits (first ++ second) = 0) {point : Nat}
    (inside : inRanges ranges point = true) :
    inRanges first point = false ∧ inRanges second point = false := by
  have outside := inRanges_eq_false_of_bits apart inside
  rwa [inRanges_append, Bool.or_eq_false_iff] at outside

def singles (points : List Nat) : List (Nat × Nat) := points.map fun point => (point, point)

theorem inRanges_singles {points : List Nat} {point : Nat} :
    inRanges (singles points) point = true ↔ point ∈ points := by
  rw [inRanges_iff]
  constructor
  · intro held
    obtain ⟨range, member, above, below⟩ := held
    obtain ⟨single, inside, rfl⟩ := List.mem_map.1 member
    rwa [Nat.le_antisymm below above]
  · intro member
    exact ⟨(point, point), List.mem_map_of_mem member, Nat.le_refl _, Nat.le_refl _⟩

end Bits

section Table

def CaseStride.points (stride : CaseStride) : List Nat :=
  (List.range' stride.first (stride.last + 1 - stride.first)).filter stride.covers

theorem CaseStride.mem_points {stride : CaseStride} {point : Nat} :
    point ∈ stride.points ↔ stride.covers point = true := by
  unfold points
  rw [List.mem_filter, List.mem_range'_1]
  constructor
  · intro held
    exact held.2
  · intro covered
    refine ⟨?_, covered⟩
    simp only [covers, Bool.and_eq_true, decide_eq_true_eq] at covered
    omega

def CaseStride.target (stride : CaseStride) (point : Nat) : Char :=
  Char.ofNat (point + stride.shift).toNat

/-- The capitals that no stride covers: those of ASCII and the dotted one. -/
def plainCapitals : List (Nat × Nat) := [(0x41, 0x5A), (0x130, 0x130)]

/-- The small characters that no stride leads to: those of ASCII, the dot above and the final
sigma. -/
def plainSmalls : List (Nat × Nat) := [(0x61, 0x7A), (0x307, 0x307), (0x3C2, 0x3C2)]

def capitalRanges : List (Nat × Nat) :=
  plainCapitals ++ singles (lowerStrides.flatMap CaseStride.points)

def capitalSpans : List (Nat × Nat) :=
  plainCapitals ++ lowerStrides.map fun stride => (stride.first, stride.last)

def smallRanges : List (Nat × Nat) :=
  plainSmalls ++ singles (lowerStrides.flatMap fun stride =>
    stride.points.map fun point => (stride.target point).toNat)

def isCapital (c : Char) : Bool := inRanges capitalRanges c.toNat

def isSmall (c : Char) : Bool := inRanges smallRanges c.toNat

theorem isCapital_iff {c : Char} :
    isCapital c = true ↔ inRanges plainCapitals c.toNat = true ∨
      ∃ stride ∈ lowerStrides, stride.covers c.toNat = true := by
  unfold isCapital capitalRanges
  rw [inRanges_append, Bool.or_eq_true, inRanges_singles, List.mem_flatMap]
  simp only [CaseStride.mem_points]

theorem isSmall_of_plain {c : Char} (plain : inRanges plainSmalls c.toNat = true) :
    isSmall c = true := by
  unfold isSmall smallRanges
  rw [inRanges_append, plain, Bool.true_or]

theorem isSmall_target {stride : CaseStride} (member : stride ∈ lowerStrides) {point : Nat}
    (covered : stride.covers point = true) : isSmall (stride.target point) = true := by
  unfold isSmall smallRanges
  rw [inRanges_append, Bool.or_eq_true, inRanges_singles, List.mem_flatMap]
  right
  exact ⟨stride, member, List.mem_map_of_mem (CaseStride.mem_points.2 covered)⟩

theorem inRanges_capitalSpans {c : Char} (capital : isCapital c = true) :
    inRanges capitalSpans c.toNat = true := by
  unfold capitalSpans
  rw [inRanges_append, Bool.or_eq_true]
  rcases isCapital_iff.1 capital with plain | ⟨stride, member, covered⟩
  · exact .inl plain
  · right
    simp only [CaseStride.covers, Bool.and_eq_true, decide_eq_true_eq] at covered
    exact inRanges_iff.2 ⟨(stride.first, stride.last), List.mem_map_of_mem member, covered.1⟩

theorem bits_smallRanges : bits smallRanges &&& bits (capitalRanges ++ blankRanges) = 0 := by
  decide +kernel

theorem bits_capitalSpans :
    bits capitalSpans &&& bits ([(0x00, 0x40), (0x5B, 0x7F)] ++ blankRanges) = 0 := by
  decide +kernel

theorem bits_blankRanges : bits blankRanges &&& bits (ignorableRanges ++ casedRanges) = 0 := by
  decide +kernel

theorem apart_of_isSmall {c : Char} (small : isSmall c = true) :
    isCapital c = false ∧ isBlank c = false :=
  outside_of_bits bits_smallRanges small

theorem isBlank_of_isCapital {c : Char} (capital : isCapital c = true) : isBlank c = false :=
  (outside_of_bits bits_capitalSpans (inRanges_capitalSpans capital)).2

theorem letter_of_isCapital {c : Char} (capital : isCapital c = true) (ascii : c.toNat < 0x80) :
    0x41 ≤ c.toNat ∧ c.toNat ≤ 0x5A := by
  have outside := (outside_of_bits bits_capitalSpans (inRanges_capitalSpans capital)).1
  simp only [inRanges, List.any_cons, List.any_nil, Bool.or_eq_false_iff, Bool.and_eq_false_iff,
    decide_eq_false_iff_not] at outside
  omega

/-- A blank ends what a capital sigma looks at. -/
theorem apart_of_isBlank {c : Char} (blank : isBlank c = true) :
    isIgnorable c = false ∧ isCased c = false :=
  outside_of_bits bits_blankRanges blank

end Table

theorem toLower_cases (c : Char) :
    (c.toLower = c ∧ (c.toNat < 0x41 ∨ 0x5A < c.toNat)) ∨
      (0x41 ≤ c.toNat ∧ c.toNat ≤ 0x5A ∧ c.toLower.toNat = c.toNat + 0x20) := by
  unfold Char.toLower
  split
  · rename_i upper
    have least : 0x41 ≤ c.toNat := UInt32.le_iff_toNat_le.1 upper.1
    have greatest : c.toNat ≤ 0x5A := UInt32.le_iff_toNat_le.1 upper.2
    have step : ('a'.val - 'A'.val).toNat = 0x20 := by decide
    refine .inr ⟨least, greatest, ?_⟩
    rw [Char.toNat_mk, UInt32.toNat_add, Char.toNat_val, step]
    omega
  · rename_i other
    have outside : ¬ (0x41 ≤ c.toNat ∧ c.toNat ≤ 0x5A) := by
      intro inside
      apply other
      exact ⟨UInt32.le_iff_toNat_le.2 inside.1, UInt32.le_iff_toNat_le.2 inside.2⟩
    refine .inl ⟨rfl, ?_⟩
    omega

section Forms

inductive LowersTo (c : Char) : List Char → Prop
  | same (plain : isCapital c = false) : LowersTo c [c]
  | small {form : List Char} (capital : isCapital c = true) (nonempty : form ≠ [])
      (smalls : ∀ d ∈ form, isSmall d = true) : LowersTo c form

variable {c d : Char} {form : List Char}

theorem LowersTo.ne_nil (lowers : LowersTo c form) : form ≠ [] := by
  cases lowers with
  | same => exact List.cons_ne_nil _ _
  | small _ nonempty => exact nonempty

theorem LowersTo.isCapital_eq_false (lowers : LowersTo c form) (member : d ∈ form) :
    isCapital d = false := by
  cases lowers with
  | same plain => rwa [List.mem_singleton.1 member]
  | small _ _ smalls => exact (apart_of_isSmall (smalls d member)).1

theorem LowersTo.isBlank_eq (lowers : LowersTo c form) (member : d ∈ form) :
    isBlank d = isBlank c := by
  cases lowers with
  | same => rw [List.mem_singleton.1 member]
  | small capital _ smalls =>
      rw [isBlank_of_isCapital capital, (apart_of_isSmall (smalls d member)).2]

theorem LowersTo.eq_self (lowers : LowersTo c form) (plain : isCapital c = false) :
    form = [c] := by
  cases lowers with
  | same => rfl
  | small capital =>
      rw [plain] at capital
      cases capital

theorem lowersTo_toLower (ascii : c.toNat < 0x80) : LowersTo c [c.toLower] := by
  rcases toLower_cases c with ⟨same, outside⟩ | ⟨least, greatest, moved⟩
  · have plain : isCapital c = false := by
      rw [← Bool.not_eq_true]
      intro capital
      have letter := letter_of_isCapital capital ascii
      omega
    rw [same]
    exact .same plain
  · have capital : inRanges plainCapitals c.toNat = true := by
      unfold plainCapitals
      simp [inRanges_cons, least, greatest]
    have small : inRanges plainSmalls c.toLower.toNat = true := by
      unfold plainSmalls
      rw [moved, inRanges_cons, Bool.or_eq_true]
      left
      simp only [Bool.and_eq_true, decide_eq_true_eq]
      omega
    exact .small (isCapital_iff.2 (.inl capital)) (List.cons_ne_nil _ _)
      (by simpa using isSmall_of_plain small)

theorem lowersTo_lowerChar (c : Char) : LowersTo c (lowerChar c) := by
  unfold lowerChar
  split
  · rename_i ascii
    exact lowersTo_toLower ascii
  · rename_i beyond
    split
    · rename_i dotted
      have smalls : ∀ d ∈ ['i', '\u0307'], inRanges plainSmalls d.toNat = true :=
        List.all_eq_true.1 (by decide)
      subst dotted
      exact .small (isCapital_iff.2 (.inl (by decide))) (List.cons_ne_nil _ _)
        fun d member => isSmall_of_plain (smalls d member)
    · rename_i undotted
      cases found : lowerStrides.find? (·.covers c.toNat) with
      | some stride =>
          have member := List.mem_of_find?_eq_some found
          have covered := List.find?_some found
          have small : isSmall (Char.ofNat (c.toNat + stride.shift).toNat) = true :=
            isSmall_target member covered
          exact .small (isCapital_iff.2 (.inr ⟨stride, member, covered⟩)) (List.cons_ne_nil _ _)
            (by simpa using small)
      | none =>
          -- A capital beyond ASCII is the dotted one or covered by a stride.
          apply LowersTo.same
          rw [← Bool.not_eq_true]
          intro capital
          rcases isCapital_iff.1 capital with plain | ⟨stride, member, covered⟩
          · apply undotted
            apply Char.toNat_inj.1
            simp only [plainCapitals, inRanges, List.any_cons, List.any_nil, Bool.or_eq_true,
              Bool.and_eq_true, decide_eq_true_eq, Bool.false_eq_true, or_false] at plain
            change c.toNat = 0x130
            omega
          · exact List.find?_eq_none.1 found stride member covered

theorem lowersTo_lowerAt (before : List Char) (c : Char) (after : List Char) :
    LowersTo c (lowerAt before c after) := by
  unfold lowerAt
  split
  · rename_i sigma
    have capital : isCapital 'Σ' = true := isCapital_iff.2 (.inr (by decide +kernel))
    have final : isSmall 'ς' = true := isSmall_of_plain (by decide)
    have inner : lowerChar 'Σ' = ['σ'] := by decide +kernel
    subst sigma
    split
    · exact .small capital (List.cons_ne_nil _ _) (by simpa using final)
    · rw [← inner]
      exact lowersTo_lowerChar 'Σ'
  · exact lowersTo_lowerChar c

end Forms

section Letters

def letterRanges : List (Nat × Nat) := [(0x41, 0x5A), (0x61, 0x7A)]

def isLetter (c : Char) : Bool := inRanges letterRanges c.toNat

theorem bits_letterRanges : bits letterRanges &&& bits (ignorableRanges ++ blankRanges) = 0 := by
  decide +kernel

theorem apart_of_isLetter {c : Char} (letter : isLetter c = true) :
    isIgnorable c = false ∧ isBlank c = false :=
  outside_of_bits bits_letterRanges letter

theorem isCased_of_isLetter {c : Char} (letter : isLetter c = true) : isCased c = true := by
  have cased : ∀ range ∈ letterRanges, range ∈ casedRanges := by decide
  obtain ⟨range, member, inside⟩ := inRanges_iff.1 letter
  exact inRanges_iff.2 ⟨range, cased range member, inside⟩

theorem toLower_eq_or_isLetter (c : Char) :
    c.toLower = c ∨ (isLetter c = true ∧ isLetter c.toLower = true) := by
  rcases toLower_cases c with ⟨same, _⟩ | ⟨least, greatest, moved⟩
  · exact .inl same
  · right
    unfold isLetter letterRanges
    simp only [inRanges, List.any_cons, List.any_nil, Bool.or_eq_true, Bool.and_eq_true,
      decide_eq_true_eq, moved]
    omega

/-- What all letters have in common does not depend on their case. -/
theorem toLower_same {property : Char → Bool} {value : Bool}
    (common : ∀ c, isLetter c = true → property c = value) (c : Char) :
    property c.toLower = property c := by
  rcases toLower_eq_or_isLetter c with same | ⟨letter, lowered⟩
  · rw [same]
  · rw [common c letter, common c.toLower lowered]

theorem isIgnorable_toLower (c : Char) : isIgnorable c.toLower = isIgnorable c :=
  toLower_same (fun _ letter => (apart_of_isLetter letter).1) c

theorem isBlank_toLower (c : Char) : isBlank c.toLower = isBlank c :=
  toLower_same (fun _ letter => (apart_of_isLetter letter).2) c

theorem isCased_toLower (c : Char) : isCased c.toLower = isCased c :=
  toLower_same (fun _ letter => isCased_of_isLetter letter) c

theorem toLower_eq_iff {c d : Char} (other : isLetter d = false) : c.toLower = d ↔ c = d := by
  rcases toLower_eq_or_isLetter c with same | ⟨letter, lowered⟩
  · rw [same]
  · constructor
    · intro reached
      rw [reached, other] at lowered
      cases lowered
    · intro same
      rw [same, other] at letter
      cases letter

theorem lowerChar_toLower (c : Char) : lowerChar c.toLower = lowerChar c := by
  rcases toLower_cases c with ⟨same, _⟩ | ⟨least, greatest, moved⟩
  · rw [same]
  · have ascii : c.toNat < 0x80 := by omega
    have asciiLowered : c.toLower.toNat < 0x80 := by omega
    have lowered : c.toLower.toLower = c.toLower := by
      rcases toLower_cases c.toLower with ⟨same, _⟩ | ⟨_, below, _⟩
      · exact same
      · omega
    unfold lowerChar
    rw [if_pos ascii, if_pos asciiLowered, lowered]

end Letters

end Abacus.Text
