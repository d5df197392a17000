import Mathlib.Data.List.Induction
import Abacus.Text.Decimal

/-!
Numbers as they may be written: perhaps a plus sign, then digits, of which the first ones may be
zeros. Reading finds the value of any such text within its bound, and a text is the one that is
printed for its value exactly when it is plain, that is without a plus sign and without zeros in
front of other digits.
-/

namespace Abacus.Text

/-- One or more ASCII digits with a given value. -/
structure DigitsOf (number : Nat) (digits : List Char) : Prop where
  nonempty : digits ≠ []
  digit : ∀ c ∈ digits, c.isDigit = true
  value : Nat.ofDigitChars 10 digits 0 = number

def Denotes (numeral : List Char) (number : Nat) : Prop :=
  DigitsOf number numeral ∨ ∃ digits, numeral = '+' :: digits ∧ DigitsOf number digits

/-- No plus sign, and no zero in front of another digit. -/
def IsPlain (numeral : List Char) : Prop :=
  numeral.head? ≠ some '+' ∧ (numeral.head? = some '0' → numeral = ['0'])

instance (numeral : List Char) : Decidable (IsPlain numeral) :=
  inferInstanceAs (Decidable (_ ∧ _))

theorem DigitsOf.head?_ne {number : Nat} {digits : List Char} (proper : DigitsOf number digits)
    {c : Char} (other : c.isDigit = false) : digits.head? ≠ some c := by
  intro first
  have digit := proper.digit c (List.mem_of_mem_head? first)
  rw [other] at digit
  cases digit

theorem Denotes.sign_or_digit {numeral : List Char} {number : Nat}
    (denotes : Denotes numeral number) {c : Char} (member : c ∈ numeral) :
    c = '+' ∨ c.isDigit = true := by
  rcases denotes with proper | ⟨digits, rfl, proper⟩
  · exact .inr (proper.digit c member)
  · rcases List.mem_cons.1 member with sign | later
    · exact .inl sign
    · exact .inr (proper.digit c later)

theorem denotes_plus_iff {digits : List Char} {number : Nat} :
    Denotes ('+' :: digits) number ↔ DigitsOf number digits := by
  constructor
  · rintro (unsigned | ⟨_, same, proper⟩)
    · exact absurd rfl (unsigned.head?_ne (by decide))
    · cases same
      exact proper
  · intro proper
    exact .inr ⟨digits, rfl, proper⟩

theorem denotes_iff_of_unsigned {numeral : List Char} {number : Nat}
    (unsigned : ∀ digits, numeral ≠ '+' :: digits) :
    Denotes numeral number ↔ DigitsOf number numeral := by
  constructor
  · rintro (proper | ⟨digits, same, _⟩)
    · exact proper
    · exact absurd same (unsigned digits)
  · exact .inl

/-- The check that reading makes of the digits. -/
theorem digits_eq_some_iff {most number : Nat} {digits : List Char} :
    (if digits.isEmpty || !digits.all Char.isDigit then none
      else if Nat.ofDigitChars 10 digits 0 ≤ most then some (Nat.ofDigitChars 10 digits 0)
      else none) = some number ↔ DigitsOf number digits ∧ number ≤ most := by
  by_cases proper : digits ≠ [] ∧ ∀ c ∈ digits, c.isDigit = true
  · rw [if_neg (by simpa using proper)]
    constructor
    · intro found
      split at found
      · cases found
        exact ⟨⟨proper.1, proper.2, rfl⟩, ‹_›⟩
      · cases found
    · rintro ⟨⟨_, _, rfl⟩, bounded⟩
      rw [if_pos bounded]
  · rw [if_pos (by simpa [← not_and_or, or_iff_not_imp_left] using proper)]
    constructor
    · intro found
      cases found
    · rintro ⟨⟨nonempty, digit, _⟩, _⟩
      exact absurd ⟨nonempty, digit⟩ proper

theorem readDecimal?_eq_some_iff {most number : Nat} {numeral : List Char} :
    readDecimal? most numeral = some number ↔ Denotes numeral number ∧ number ≤ most := by
  simp only [readDecimal?]
  split
  · rw [denotes_plus_iff]
    exact digits_eq_some_iff
  · rename_i unsigned
    rw [denotes_iff_of_unsigned unsigned]
    exact digits_eq_some_iff

theorem digitChar_of_isDigit {c : Char} (digit : c.isDigit = true) :
    (c.toNat - '0'.toNat).digitChar = c ∧ c.toNat - '0'.toNat < 10 := by
  obtain ⟨low, high⟩ := Char.isDigit_iff_toNat.1 digit
  have zero : '0'.toNat = 48 := rfl
  have nine : '9'.toNat = 57 := rfl
  have small : c.toNat - '0'.toNat < 10 := by omega
  refine ⟨?_, small⟩
  apply Char.toNat_inj.1
  rw [Nat.toNat_digitChar_of_lt_ten small]
  omega

theorem toDigits_ofDigitChars {digits : List Char} (nonempty : digits ≠ [])
    (digit : ∀ c ∈ digits, c.isDigit = true)
    (unpadded : digits.head? = some '0' → digits = ['0']) :
    Nat.toDigits 10 (Nat.ofDigitChars 10 digits 0) = digits := by
  induction digits using List.reverseRecOn with
  | nil => exact absurd rfl nonempty
  | append_singleton front c induction =>
      obtain ⟨same, small⟩ := digitChar_of_isDigit (digit c (by simp))
      rw [Nat.ofDigitChars_append, Nat.ofDigitChars_cons, Nat.ofDigitChars_nil]
      cases front with
      | nil =>
          rw [Nat.ofDigitChars_nil, Nat.mul_zero, Nat.zero_add, Nat.toDigits_of_lt_base small, same]
          rfl
      | cons first front =>
          -- A zero in front would be the only digit, but `c` follows it.
          have nonzero : first ≠ '0' := by
            rintro rfl
            simpa using unpadded rfl
          have before := induction (by simp)
            (by intro d member; exact digit d (List.mem_append_left _ member)) (by simp [nonzero])
          have positive : 0 < Nat.ofDigitChars 10 (first :: front) 0 := by
            apply Nat.pos_of_ne_zero
            intro zero
            rw [zero, Nat.toDigits_zero] at before
            cases before
            exact nonzero rfl
          rw [← Nat.toDigits_append_toDigits (by decide) positive small, before,
            Nat.toDigits_of_lt_base small, same]

theorem isPlain_toDigits (number : Nat) : IsPlain (Nat.toDigits 10 number) := by
  constructor
  · intro first
    have digit := Nat.isDigit_of_mem_toDigits (by decide) (by decide) (List.mem_of_mem_head? first)
    revert digit
    decide
  · induction number using Nat.strongRecOn with
    | ind number induction =>
        rw [Nat.toDigits_eq_if (by decide)]
        split
        · intro first
          simpa using first
        · rename_i large
          intro first
          have earlier : (Nat.toDigits 10 (number / 10)).head? = some '0' := by
            rw [List.head?_append] at first
            cases shape : Nat.toDigits 10 (number / 10) with
            | nil => exact absurd shape Nat.toDigits_ne_nil
            | cons c front => simpa [shape] using first
          have only := induction (number / 10) (by omega) earlier
          have value := congrArg (Nat.ofDigitChars 10 · 0) only
          rw [Nat.ofDigitChars_ten_toDigits] at value
          have zero : Nat.ofDigitChars 10 ['0'] 0 = 0 := rfl
          omega

/-- The printed numeral of a number is the plain one among its numerals. -/
theorem Denotes.eq_toDigits_iff {numeral : List Char} {number : Nat}
    (denotes : Denotes numeral number) :
    Nat.toDigits 10 number = numeral ↔ IsPlain numeral := by
  constructor
  · rintro rfl
    exact isPlain_toDigits number
  · rintro ⟨unsigned, unpadded⟩
    rcases denotes with ⟨nonempty, digit, rfl⟩ | ⟨digits, rfl, _⟩
    · exact toDigits_ofDigitChars nonempty digit unpadded
    · exact absurd rfl unsigned

theorem denotes_toDigits (number : Nat) : Denotes (Nat.toDigits 10 number) number := by
  refine .inl ⟨Nat.toDigits_ne_nil, ?_, Nat.ofDigitChars_ten_toDigits⟩
  intro c member
  exact Nat.isDigit_of_mem_toDigits (by decide) (by decide) member

end Abacus.Text
