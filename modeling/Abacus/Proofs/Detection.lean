import Abacus.Bytecode.Detect
import Abacus.Proofs.FileFormat

/-!
Telling compiled files by their first bytes, however these arrive. What a row of readings gives is
the bytes of its pieces up to the first end or failure. Main statement: detection sees no more of
the readings than the first four bytes that they give, so that it does not depend on how the
content of a file was cut, nor on anything after the fourth byte.
-/

namespace Abacus.Bytecode

/-- The bytes that come before the input ends or a read fails. -/
def Reading.content : List Reading → List UInt8
  | [] => []
  | .piece bytes :: rest => bytes ++ content rest
  | .ended :: _ => []
  | .failed :: _ => []

open Reading (content)

/-- The buffer is filled from the content, or not at all. -/
theorem fill_eq (wanted : Nat) (got : List UInt8) (readings : List Reading) :
    fill wanted got readings =
      if wanted ≤ (got ++ content readings).length then some ((got ++ content readings).take wanted)
      else none := by
  induction readings generalizing got with
  | nil =>
      unfold fill
      rw [content, List.append_nil]
  | cons reading rest induction =>
      unfold fill
      by_cases full : wanted ≤ got.length
      · have enough : wanted ≤ (got ++ content (reading :: rest)).length := by
          rw [List.length_append]
          exact Nat.le_add_right_of_le full
        rw [if_pos full, if_pos enough, List.take_append_of_le_length full]
      · rw [if_neg full]
        cases reading with
        | piece bytes =>
            rw [content, ← List.append_assoc]
            exact induction (got ++ bytes)
        | ended => simp [content, full]
        | failed => simp [content, full]

theorem detect_iff {readings : List Reading} :
    detect readings = true ↔ magic <+: content readings := by
  unfold detect
  rw [fill_eq, List.nil_append, beq_iff_eq, List.prefix_iff_eq_take]
  constructor
  · intro found
    split at found
    · exact (Option.some.inj found).symm
    · cases found
  · intro same
    have long : magic.length ≤ (content readings).length := by
      rw [same, List.length_take]
      exact Nat.min_le_right _ _
    rw [if_pos long, ← same]

theorem isCompiled_iff {bytes : List UInt8} : isCompiled bytes = true ↔ magic <+: bytes := by
  have whole : content [.piece bytes, .ended] = bytes := List.append_nil bytes
  unfold isCompiled
  rw [detect_iff, whole]

theorem isCompiled_encode (container : Container) : isCompiled container.encode = true := by
  rw [isCompiled_iff, Container.encode]
  simp only [List.append_assoc]
  exact List.prefix_append _ _

theorem prefix_of_decode {bytes : List UInt8} {container : Container}
    (decoded : Container.decode bytes = .ok container) : magic <+: bytes := by
  obtain ⟨table, rfl, _⟩ := Container.decode_eq_ok_iff.1 decoded
  simp only [Container.header, List.append_assoc]
  exact List.prefix_append _ _

theorem content_prefix_append (readings later : List Reading) :
    content readings <+: content (readings ++ later) := by
  induction readings with
  | nil => exact List.nil_prefix
  | cons reading rest induction =>
      cases reading with
      | piece bytes => exact (List.prefix_append_right_inj bytes).2 induction
      | ended => exact List.nil_prefix
      | failed => exact List.nil_prefix

theorem magic_prefix_iff {bytes : List UInt8} :
    magic <+: bytes ↔ 4 ≤ bytes.length ∧ bytes.take 4 = [0x42, 0x4F, 0x4E, 0x45] := by
  constructor
  · intro start
    exact ⟨start.length_le, (List.prefix_iff_eq_take.1 start).symm⟩
  · intro first
    rw [← List.take_append_drop 4 bytes, first.2]
    exact List.prefix_append _ _

/-- Detection says yes exactly if the readings give at least four bytes and the first four are the
magic ones; it gives the same answer to all readings with the same content, finds every file that
can be decoded, and does not look at what comes after the fourth byte. -/
theorem detection_ignores_cuts (readings : List Reading) :
    (detect readings = true ↔ 4 ≤ (content readings).length ∧
        (content readings).take 4 = [0x42, 0x4F, 0x4E, 0x45]) ∧
      (∀ others, content others = content readings → detect others = detect readings) ∧
      (∀ container, Container.decode (content readings) = .ok container →
        detect readings = true) ∧
      ∀ later, 4 ≤ (content readings).length → detect (readings ++ later) = detect readings := by
  refine ⟨detect_iff.trans magic_prefix_iff, ?_, ?_, ?_⟩
  · intro others same
    rw [Bool.eq_iff_iff, detect_iff, detect_iff, same]
  · intro container decoded
    exact detect_iff.2 (prefix_of_decode decoded)
  · intro later enough
    rw [Bool.eq_iff_iff, detect_iff, detect_iff]
    have longer := content_prefix_append readings later
    constructor
    · intro start
      exact List.prefix_of_prefix_length_le start longer enough
    · intro start
      exact start.trans longer

example :
    detect [.piece [0x42], .piece [0x4F, 0x4E], .piece [0x45], .failed] = true ∧
      detect [.piece [0x42, 0x4F, 0x4E], .failed, .piece [0x45]] = false := by
  decide

end Abacus.Bytecode
