import Abacus.Proofs.CompileFaults
import Abacus.Proofs.LowerText
import Abacus.Proofs.Pieces
import Abacus.Proofs.Tracing

/-!
The case of ASCII letters. Semicolons, line ends and blanks are no letters, and lower-casing does
not see the case of letters, not even where a capital sigma looks at its neighbours. Main
statement: sources that differ only in the case of ASCII letters have the same phrases, so nothing
that is made of them can tell them apart.
-/

namespace Abacus

namespace Text

def SameLetters (left right : String) : Prop :=
  left.toList.map Char.toLower = right.toList.map Char.toLower

instance (left right : String) : Decidable (SameLetters left right) :=
  inferInstanceAs (Decidable (_ = _))

theorem isBlank_comp_toLower : isBlank ∘ Char.toLower = isBlank := by
  funext c
  exact isBlank_toLower c

theorem isBlankText_map_toLower (text : List Char) :
    isBlankText (text.map Char.toLower) = isBlankText text := by
  unfold isBlankText
  rw [List.all_map, isBlank_comp_toLower]

theorem trimLeft_map_toLower (text : List Char) :
    trimLeft (text.map Char.toLower) = (trimLeft text).map Char.toLower := by
  unfold trimLeft
  rw [List.dropWhile_map, isBlank_comp_toLower]

theorem trim_map_toLower (text : List Char) :
    trim (text.map Char.toLower) = (trim text).map Char.toLower := by
  unfold trim
  rw [trimLeft_map_toLower, ← List.map_reverse, trimLeft_map_toLower, ← List.map_reverse]

theorem count_map_toLower {sign : Char} (other : isLetter sign = false) (text : List Char) :
    (text.map Char.toLower).count sign = text.count sign := by
  unfold List.count
  rw [List.countP_map]
  apply List.countP_congr
  intro c _
  simp only [Function.comp_apply, beq_iff_eq]
  exact toLower_eq_iff other

theorem splitOn_map_toLower {sign : Char} (other : isLetter sign = false) (text : List Char) :
    (text.map Char.toLower).splitOn sign = (text.splitOn sign).map (List.map Char.toLower) := by
  induction text with
  | nil => rfl
  | cons c rest induction =>
      have same : (c.toLower == sign) = (c == sign) := by
        rw [Bool.eq_iff_iff, beq_iff_eq, beq_iff_eq]
        exact toLower_eq_iff other
      rw [List.map_cons, List.splitOn_cons_eq_if_modifyHead, List.splitOn_cons_eq_if_modifyHead,
        same, induction]
      split
      · rfl
      · cases rest.splitOn sign <;> rfl

end Text

namespace Phrase

theorem ofPiece_map_toLower (line : Nat) (piece : List Char) :
    ofPiece line (piece.map Char.toLower) = ofPiece line piece := by
  unfold ofPiece ofRaw
  rw [List.takeWhile_map, Text.isBlank_comp_toLower, Text.count_map_toLower (by decide),
    Text.trim_map_toLower, Text.lower_map_toLower]

theorem ofPieces_map_toLower (line : Nat) (pieces : List (List Char)) :
    ofPieces line (pieces.map (List.map Char.toLower)) = ofPieces line pieces := by
  induction pieces generalizing line with
  | nil => rfl
  | cons piece rest induction =>
      by_cases last : rest = []
      · subst last
        simp only [List.map_cons, List.map_nil, ofPieces, Text.isBlankText_map_toLower,
          ofPiece_map_toLower]
      · have more : rest.map (List.map Char.toLower) ≠ [] := by simpa using last
        rw [List.map_cons, ofPieces_cons _ _ more, ofPieces_cons _ _ last, ofPiece_map_toLower,
          Text.count_map_toLower (by decide), induction]

theorem scan_map_toLower (source : List Char) : scan (source.map Char.toLower) = scan source := by
  apply Array.toList_inj.1
  rw [scan_eq_ofPieces, scan_eq_ofPieces, Text.splitOn_map_toLower (by decide),
    ofPieces_map_toLower]

theorem scan_of_sameLetters {source other : String} (same : Text.SameLetters source other) :
    scan source.toList = scan other.toList := by
  unfold Text.SameLetters at same
  rw [← scan_map_toLower, same, scan_map_toLower]

end Phrase

namespace Program

/-- Sources that differ only in the case of ASCII letters have the same phrases and are the same
program: they compile to the same code or are refused with the same fault, and their runs come to
the same end, show the same statements when they are traced, or never end. -/
theorem letter_case_never_matters {source other : String} (same : Text.SameLetters source other) :
    Phrase.scan source.toList = Phrase.scan other.toList ∧
      ofSource source = ofSource other ∧
      (ofSource source).compile = (ofSource other).compile ∧
      (∀ rounds, (ofSource source).run? rounds (.start (ofSource source)) =
        (ofSource other).run? rounds (.start (ofSource other))) ∧
      ∀ calls budgets, (ofSource source).tracedAccount calls budgets =
        (ofSource other).tracedAccount calls budgets := by
  have phrases := Phrase.scan_of_sameLetters same
  have program : ofSource source = ofSource other := by
    unfold ofSource
    rw [phrases]
  refine ⟨phrases, program, ?_, ?_, ?_⟩
  · rw [program]
  · intro rounds
    rw [program]
  · intro calls budgets
    rw [program]

/-- Capital sigmas before a letter, after one and alone, and a phrase that is no statement. -/
def shouted : String := "INCR aΣ;\nWhile aΣB; decr AΣ'b;END;Σ x"

def murmured : String := "incr AΣ;\nwHILE AΣb; DECR aΣ'B;end;Σ X"

theorem letter_case_around_sigmas :
    Text.SameLetters shouted murmured ∧
      (Phrase.scan murmured.toList).map Phrase.text =
        #["incr aς", "while aσb", "decr aσ'b", "end", "σ x"] ∧
      (ofSource shouted).compile =
        .error ⟨.badStatement, .statement 2 "σ x", .unknownInstruction⟩ := by
  have same : Text.SameLetters shouted murmured := by decide +kernel
  have broken : (ofSource murmured).firstFault? =
      some ⟨.badStatement, .statement 2 "σ x", .unknownInstruction⟩ := by
    decide +kernel
  obtain ⟨phrases, _, compiled, _⟩ := letter_case_never_matters same
  refine ⟨same, ?_, ?_⟩
  · rw [← phrases]
    decide +kernel
  · rw [compiled]
    exact compile_of_firstFault? broken

end Program

end Abacus
