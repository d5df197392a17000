/-!
Numbers of two and four bytes, the highest byte first.
-/

namespace Abacus.Bytecode

def bytes16 (word : UInt16) : List UInt8 :=
  [(word.toNat / 256).toUInt8, word.toNat.toUInt8]

def word16 (high low : UInt8) : UInt16 := (high.toNat * 256 + low.toNat).toUInt16

def bytes32 (word : UInt32) : List UInt8 :=
  [(word.toNat / 16777216).toUInt8, (word.toNat / 65536).toUInt8,
   (word.toNat / 256).toUInt8, word.toNat.toUInt8]

def word32 (first second third fourth : UInt8) : UInt32 :=
  (((first.toNat * 256 + second.toNat) * 256 + third.toNat) * 256 + fourth.toNat).toUInt32

theorem word16_bytes16 (word : UInt16) :
    word16 (word.toNat / 256).toUInt8 word.toNat.toUInt8 = word := by
  apply UInt16.toNat_inj.1
  have bounded := word.toNat_lt
  simp [word16]
  omega

theorem bytes16_word16 (high low : UInt8) : bytes16 (word16 high low) = [high, low] := by
  have highBounded := high.toNat_lt
  have lowBounded := low.toNat_lt
  simp only [bytes16, word16, List.cons.injEq, and_true]
  constructor
  · apply UInt8.toNat_inj.1
    simp
    omega
  · apply UInt8.toNat_inj.1
    simp

theorem word32_bytes32 (word : UInt32) :
    word32 (word.toNat / 16777216).toUInt8 (word.toNat / 65536).toUInt8
      (word.toNat / 256).toUInt8 word.toNat.toUInt8 = word := by
  apply UInt32.toNat_inj.1
  have bounded := word.toNat_lt
  simp [word32]
  omega

theorem bytes32_word32 (first second third fourth : UInt8) :
    bytes32 (word32 first second third fourth) = [first, second, third, fourth] := by
  have firstBounded := first.toNat_lt
  have secondBounded := second.toNat_lt
  have thirdBounded := third.toNat_lt
  have fourthBounded := fourth.toNat_lt
  simp only [bytes32, word32, List.cons.injEq, and_true]
  refine ⟨?_, ?_, ?_, ?_⟩
  · apply UInt8.toNat_inj.1
    simp
    omega
  · apply UInt8.toNat_inj.1
    simp
    omega
  · apply UInt8.toNat_inj.1
    simp
    omega
  · apply UInt8.toNat_inj.1
    simp

end Abacus.Bytecode
