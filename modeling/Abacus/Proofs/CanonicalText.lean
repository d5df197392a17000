import Abacus.Proofs.LowerText
import Abacus.Proofs.Pieces
import Abacus.Proofs.SourceNames
import Abacus.Proofs.SymbolTable
import Abacus.Proofs.Unlined

/-!
The canonical form of a source: the texts of its phrases, each ended by a semicolon. Main
statement: the canonical form has the phrases of the source, on other lines; it is its own
canonical form; and it stands for the same program, but for the lines in faults.
-/

namespace Abacus

namespace Phrase

/-- The texts of the phrases one after another, each followed by a semicolon. -/
def canonical (source : String) : String :=
  String.ofList ((scan source.toList).toList.flatMap fun phrase => phrase.text.toList ++ [';'])

def Settled (text : String) : Prop :=
  Text.lower (Text.trim text.toList) = text.toList

theorem settled_ofRaw (line : Nat) (raw : List Char) : Settled (ofRaw line raw).text := by
  unfold Settled ofRaw
  rw [String.toList_ofList, Text.trim_lower, Text.trim_trim, Text.lower_lower]

theorem settled_of_mem_scan {source : List Char} {phrase : Phrase} (member : phrase ∈ scan source) :
    Settled phrase.text := by
  obtain ⟨index, found⟩ := Array.mem_iff_getElem?.1 member
  obtain ⟨line, piece, _, rfl⟩ := exists_piece_of_scan found
  exact settled_ofRaw _ piece

theorem texts_ofPieces (line : Nat) (pieces : List (List Char)) :
    (ofPieces line (pieces ++ [[]])).map text =
      pieces.map fun piece => String.ofList (Text.lower (Text.trim piece)) := by
  induction pieces generalizing line with
  | nil => rfl
  | cons piece rest induction =>
      have more : rest ++ [[]] ≠ [] := by simp
      rw [List.cons_append, ofPieces_cons _ _ more, List.map_cons, induction]
      rfl

theorem splitOn_canonical (source : String) :
    (canonical source).toList.splitOn ';' =
      (scan source.toList).toList.map (fun phrase => phrase.text.toList) ++ [[]] := by
  rw [Text.splitOn_eq_concat_nil_iff]
  constructor
  · rw [canonical, String.toList_ofList, List.flatMap_map]
  · intro item member
    obtain ⟨phrase, scanned, rfl⟩ := List.mem_map.1 member
    exact uncut_of_mem_scan source.toList phrase (Array.mem_toList_iff.1 scanned)

theorem texts_scan_canonical (source : String) :
    (scan (canonical source).toList).toList.map text = (scan source.toList).toList.map text := by
  rw [scan_eq_ofPieces, splitOn_canonical, texts_ofPieces, List.map_map]
  apply List.map_congr_left
  intro phrase member
  have settled := settled_of_mem_scan (Array.mem_toList_iff.1 member)
  unfold Settled at settled
  rw [Function.comp_apply, settled, String.ofList_toList]

theorem canonical_canonical (source : String) : canonical (canonical source) = canonical source := by
  have written : ∀ source : String, canonical source = String.ofList
      (((scan source.toList).toList.map text).flatMap fun text => text.toList ++ [';']) := by
    intro source
    rw [canonical, List.flatMap_map]
  rw [written (canonical source), texts_scan_canonical, ← written]

/-- What is left of a phrase without its line is its text. -/
theorem scan_canonical_unlined (source : String) :
    (scan (canonical source).toList).map unlined = (scan source.toList).map unlined := by
  have texts := congrArg (List.map (Phrase.mk 0)) (texts_scan_canonical source)
  rw [List.map_map, List.map_map] at texts
  apply Array.toList_inj.1
  rw [Array.toList_map, Array.toList_map]
  exact texts

end Phrase

namespace Program

theorem ofSource_canonical_unlined (source : String) :
    (ofSource (Phrase.canonical source)).unlined = (ofSource source).unlined := by
  unfold ofSource
  rw [← ofPhrases_unlined, ← ofPhrases_unlined, Phrase.scan_canonical_unlined]

/-- The canonical form of a source has its texts in their order and is its own canonical form. The
program it stands for has the statements and the slots of the source's own, but for lines in
faults, and compiles to the same code; and it is refused, if at all, with the same fault, but for
the line. -/
theorem canonical_text_is_fixed (source : String) :
    (Phrase.scan (Phrase.canonical source).toList).map Phrase.text =
        (Phrase.scan source.toList).map Phrase.text ∧
      Phrase.canonical (Phrase.canonical source) = Phrase.canonical source ∧
      (∀ address, ((ofSource (Phrase.canonical source)).linkedAt address).unlined =
        ((ofSource source).linkedAt address).unlined) ∧
      (ofSource (Phrase.canonical source)).slots = (ofSource source).slots ∧
      (ofSource (Phrase.canonical source)).compile.mapError Fault.unlined =
        (ofSource source).compile.mapError Fault.unlined ∧
      ∀ container, (ofSource (Phrase.canonical source)).compile = .ok container ↔
        (ofSource source).compile = .ok container := by
  have same := ofSource_canonical_unlined source
  have compiled : (ofSource (Phrase.canonical source)).compile.mapError Fault.unlined =
      (ofSource source).compile.mapError Fault.unlined := by
    rw [← compile_unlined, ← compile_unlined, same]
  refine ⟨?_, Phrase.canonical_canonical source, ?_, ?_, compiled, ?_⟩
  · apply Array.toList_inj.1
    rw [Array.toList_map, Array.toList_map]
    exact Phrase.texts_scan_canonical source
  · intro address
    rw [← linkedAt_unlined, ← linkedAt_unlined, same]
  · rw [← slots_unlined, same, slots_unlined]
  · intro container
    rw [← mapError_eq_ok_iff, compiled, mapError_eq_ok_iff]

example : Phrase.canonical "\n INCR\tΑΣ ;;#Σ;While\n İ" = "incr\tας;;#σ;while\n i̇;" := by
  decide +kernel

end Program

end Abacus
