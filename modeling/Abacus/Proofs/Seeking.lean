import Abacus.Outline

/-!
How the search for a keyword goes through an outline: past phrases without a keyword, down at
the start of a block and up at its end, and never out of the outline. The search for the end of a
chain of branches goes by the ends of its branches, one after the other.
-/

namespace Abacus.Outline

variable {outline : Outline} {targets : List Keyword} {left index depth : Nat} {keyword : Keyword}

theorem seek_blank (blank : outline[index]?.join = none) :
    outline.seek targets (left + 1) index depth = outline.seek targets left (index + 1) depth := by
  simp [seek, blank]

theorem seek_target (here : outline[index]?.join = some keyword) (wanted : keyword ∈ targets) :
    outline.seek targets (left + 1) index 0 = some index := by
  simp [seek, here, wanted]

theorem seek_opening (here : outline[index]?.join = some keyword)
    (unwanted : ¬ (depth = 0 ∧ keyword ∈ targets)) (opens : keyword.opensBlock = true) :
    outline.seek targets (left + 1) index depth =
      outline.seek targets left (index + 1) (depth + 1) := by
  simp only [seek, here, if_neg unwanted, opens, if_true]

theorem seek_closing (here : outline[index]?.join = some keyword)
    (opens : keyword.opensBlock = false) (closes : keyword.closesBlock = true) :
    outline.seek targets (left + 1) index (depth + 1) =
      outline.seek targets left (index + 1) depth := by
  simp [seek, here, opens, closes]

theorem seek_stray (here : outline[index]?.join = some keyword) (unwanted : keyword ∉ targets)
    (opens : keyword.opensBlock = false) (closes : keyword.closesBlock = true) :
    outline.seek targets (left + 1) index 0 = none := by
  simp [seek, here, opens, closes, unwanted]

theorem seek_plain (here : outline[index]?.join = some keyword)
    (unwanted : ¬ (depth = 0 ∧ keyword ∈ targets)) (opens : keyword.opensBlock = false)
    (closes : keyword.closesBlock = false) :
    outline.seek targets (left + 1) index depth = outline.seek targets left (index + 1) depth := by
  simp only [seek, here, if_neg unwanted, opens, closes, Bool.false_eq_true, if_false]

theorem seek_found {found : Nat} (sought : outline.seek targets left index depth = some found) :
    index ≤ found ∧ found < index + left ∧
      ∃ keyword ∈ targets, outline[found]?.join = some keyword := by
  induction left generalizing index depth with
  | zero => cases sought
  | succ left induction =>
      have onward : ∀ {inner : Nat},
          outline.seek targets left (index + 1) inner = some found →
          index ≤ found ∧ found < index + (left + 1) ∧
            ∃ keyword ∈ targets, outline[found]?.join = some keyword := by
        intro inner rest
        obtain ⟨later, bounded, wanted⟩ := induction rest
        exact ⟨by omega, by omega, wanted⟩
      simp only [seek] at sought
      split at sought
      · exact onward sought
      · rename_i keyword here
        split at sought
        · rename_i hit
          obtain rfl := Option.some.inj sought
          exact ⟨Nat.le_refl _, by omega, keyword, hit.2, here⟩
        · split at sought
          · exact onward sought
          · split at sought
            · split at sought
              · cases sought
              · exact onward sought
            · exact onward sought

theorem next?_found {start found : Nat} (sought : outline.next? start targets = some found) :
    start < found ∧ found < outline.size ∧
      ∃ keyword ∈ targets, outline[found]?.join = some keyword := by
  obtain ⟨later, bounded, wanted⟩ := seek_found sought
  exact ⟨by omega, by omega, wanted⟩

/-- Where the search for the end of a branch stops, the search for the end of the chain stops too
if the chain ends there, and goes on from there if it does not. -/
theorem seek_chainEnds {found : Nat}
    (sought : outline.seek Keyword.branchEnds left index depth = some found) :
    index ≤ found ∧ found < index + left ∧
      outline.seek Keyword.chainEnds left index depth =
        if outline[found]?.join = some .endIf then some found
        else outline.seek Keyword.chainEnds (index + left - (found + 1)) (found + 1) 0 := by
  induction left generalizing index depth with
  | zero => cases sought
  | succ left induction =>
      have onward : ∀ {inner : Nat},
          outline.seek Keyword.branchEnds left (index + 1) inner = some found →
          index ≤ found ∧ found < index + (left + 1) ∧
            outline.seek Keyword.chainEnds left (index + 1) inner =
              if outline[found]?.join = some .endIf then some found
              else outline.seek Keyword.chainEnds (index + (left + 1) - (found + 1)) (found + 1)
                0 := by
        intro inner rest
        obtain ⟨later, bounded, answer⟩ := induction rest
        rw [show index + 1 + left = index + (left + 1) by omega] at bounded answer
        exact ⟨Nat.le_of_succ_le later, bounded, answer⟩
      cases here : outline[index]?.join with
      | none =>
          rw [seek_blank here] at sought ⊢
          exact onward sought
      | some keyword =>
          by_cases hit : depth = 0 ∧ keyword ∈ Keyword.branchEnds
          · obtain ⟨rfl, wanted⟩ := hit
            rw [seek_target here wanted] at sought
            obtain rfl := Option.some.inj sought
            refine ⟨Nat.le_refl _, by omega, ?_⟩
            have remaining : index + (left + 1) - (index + 1) = left := by omega
            rw [here, remaining]
            simp only [Keyword.branchEnds, List.mem_cons, List.not_mem_nil, or_false] at wanted
            rcases wanted with rfl | rfl | rfl
            · simpa using seek_plain here (by decide) rfl rfl
            · simpa using seek_plain here (by decide) rfl rfl
            · simpa using seek_target here (by decide)
          · have miss : ¬ (depth = 0 ∧ keyword ∈ Keyword.chainEnds) := by
              rintro ⟨shallow, wanted⟩
              simp only [Keyword.chainEnds, List.mem_singleton] at wanted
              exact hit ⟨shallow, by simp [wanted, Keyword.branchEnds]⟩
            cases opens : keyword.opensBlock with
            | true =>
                rw [seek_opening here hit opens] at sought
                rw [seek_opening here miss opens]
                exact onward sought
            | false =>
                cases closes : keyword.closesBlock with
                | true =>
                    cases depth with
                    | zero =>
                        have unwanted : keyword ∉ Keyword.branchEnds := fun wanted =>
                          hit ⟨rfl, wanted⟩
                        rw [seek_stray here unwanted opens closes] at sought
                        cases sought
                    | succ depth =>
                        rw [seek_closing here opens closes] at sought ⊢
                        exact onward sought
                | false =>
                    rw [seek_plain here hit opens closes] at sought
                    rw [seek_plain here miss opens closes]
                    exact onward sought

theorem next?_chainEnds {start found : Nat}
    (sought : outline.next? start Keyword.branchEnds = some found) :
    outline.next? start Keyword.chainEnds =
      if outline[found]?.join = some .endIf then some found
      else outline.next? found Keyword.chainEnds := by
  obtain ⟨later, bounded, rest⟩ := seek_chainEnds sought
  have total : start + 1 + (outline.size - (start + 1)) = outline.size := by omega
  rw [total] at rest
  exact rest

end Abacus.Outline
