/-!
White space and what is cut at it. A character is blank when it has the Unicode
property White_Space; `trim` takes the blank ends off a text and `words` gives its
longest runs without blanks.
-/

namespace Abacus.Text

/-- The code points with the property White_Space, as closed ranges in ascending order. -/
def blankRanges : List (Nat × Nat) :=
  [(0x09, 0x0D), (0x20, 0x20), (0x85, 0x85), (0xA0, 0xA0), (0x1680, 0x1680),
   (0x2000, 0x200A), (0x2028, 0x2029), (0x202F, 0x202F), (0x205F, 0x205F),
   (0x3000, 0x3000)]

def inRanges (ranges : List (Nat × Nat)) (point : Nat) : Bool :=
  ranges.any fun range => range.1 ≤ point && point ≤ range.2

def isBlank (c : Char) : Bool := inRanges blankRanges c.toNat

def isBlankText (text : List Char) : Bool := text.all isBlank

def trimLeft (text : List Char) : List Char := text.dropWhile isBlank

def trim (text : List Char) : List Char :=
  (trimLeft (trimLeft text).reverse).reverse

/-- The words of a text, in order. None is empty and none holds a blank. -/
def words (text : List Char) : List (List Char) :=
  (text.splitOnP isBlank).filter fun word => !word.isEmpty

theorem inRanges_iff {ranges : List (Nat × Nat)} {point : Nat} :
    inRanges ranges point = true ↔
      ∃ range ∈ ranges, range.1 ≤ point ∧ point ≤ range.2 := by
  simp [inRanges]

theorem isBlankText_iff {text : List Char} :
    isBlankText text = true ↔ ∀ c ∈ text, isBlank c = true := by
  simp [isBlankText]

theorem ne_nil_of_mem_words {text word : List Char} (member : word ∈ words text) :
    word ≠ [] := by
  simp only [words, List.mem_filter, Bool.not_eq_eq_eq_not, Bool.not_true,
    List.isEmpty_eq_false_iff] at member
  exact member.2

end Abacus.Text
