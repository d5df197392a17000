import Abacus.Proofs.Grammar
import Abacus.Proofs.Seeking

/-!
The search for the end of a branch, or of a chain, passes over whole items: where the outline
reads a word of the grammar, the search comes out behind the word at the depth it came in.
-/

namespace Abacus

open Grammar

namespace Outline

def Reads (outline : Outline) : Nat → List Keyword → Prop
  | _, [] => True
  | index, keyword :: word =>
    outline[index]? = some (some keyword) ∧ outline.Reads (index + 1) word

theorem reads_append {outline : Outline} {index : Nat} {front back : List Keyword} :
    outline.Reads index (front ++ back) ↔
      outline.Reads index front ∧ outline.Reads (index + front.length) back := by
  induction front generalizing index with
  | nil => simp [Reads]
  | cons keyword front induction =>
      rw [List.cons_append, Reads, Reads, induction, and_assoc, List.length_cons,
        Nat.add_right_comm index 1, Nat.add_assoc]

/-- A search at this depth goes on behind the word. -/
def Passes (outline : Outline) (targets word : List Keyword) (depth : Nat) : Prop :=
  ∀ left index, outline.Reads index word →
    outline.seek targets (word.length + left) index depth =
      outline.seek targets left (index + word.length) depth

variable {outline : Outline} {targets : List Keyword}

theorem Passes.append {front back : List Keyword} {depth : Nat}
    (first : outline.Passes targets front depth) (second : outline.Passes targets back depth) :
    outline.Passes targets (front ++ back) depth := by
  intro left index reads
  obtain ⟨before, behind⟩ := reads_append.1 reads
  rw [List.length_append, Nat.add_assoc, first _ _ before, second _ _ behind, Nat.add_assoc]

theorem passes_nil (depth : Nat) : outline.Passes targets [] depth := by
  intro left index _
  simp

theorem passes_plain {keyword : Keyword} {depth : Nat}
    (unwanted : ¬ (depth = 0 ∧ keyword ∈ targets)) (opens : keyword.opensBlock = false)
    (closes : keyword.closesBlock = false) : outline.Passes targets [keyword] depth := by
  intro left index reads
  have here : outline[index]?.join = some keyword := by rw [reads.1]; rfl
  rw [List.length_singleton, Nat.add_comm 1 left]
  exact seek_plain here unwanted opens closes

/-- A whole block is passed over if its inside is, one level down. -/
theorem passes_block {opening closing : Keyword} {body : List Keyword} {depth : Nat}
    (unwanted : opening ∉ targets) (opens : opening.opensBlock = true)
    (stays : closing.opensBlock = false) (closes : closing.closesBlock = true)
    (inner : outline.Passes targets body (depth + 1)) :
    outline.Passes targets (opening :: body ++ [closing]) depth := by
  intro left index reads
  obtain ⟨⟨first, inside⟩, last, _⟩ := reads_append.1 reads
  have start : outline[index]?.join = some opening := by rw [first]; rfl
  have finish : outline[index + (opening :: body).length]?.join = some closing := by
    rw [last]
    rfl
  have count : (opening :: body ++ [closing]).length + left = body.length + (left + 1) + 1 := by
    simp only [List.length_append, List.length_cons, List.length_nil]
    omega
  have behind : index + 1 + body.length = index + (opening :: body).length := by
    rw [List.length_cons]
    omega
  rw [count, seek_opening start (fun hit => unwanted hit.2) opens, inner _ _ inside, behind,
    seek_closing finish stays closes, List.length_append, List.length_singleton, Nat.add_assoc]

end Outline

namespace Grammar

open Outline

def Symbol.Passed (outline : Outline) (targets : List Keyword) : Symbol → List Keyword → Prop
  | .item, word | .items, word => ∀ depth, outline.Passes targets word depth
  | .branches, word => ∀ depth, 0 < depth ∨ targets = Keyword.chainEnds →
      outline.Passes targets word depth
  | .program, _ => True

theorem passed_of_derives (outline : Outline) {targets : List Keyword}
    (only : ∀ keyword ∈ targets, keyword ∈ Keyword.branchEnds) {symbol : Symbol}
    {word : List Keyword} (derives : Derives symbol word) : symbol.Passed outline targets word := by
  have unwanted : ∀ {keyword : Keyword}, keyword ∉ Keyword.branchEnds → keyword ∉ targets :=
    fun outside wanted => outside (only _ wanted)
  induction derives with
  | clear =>
      intro depth
      exact passes_plain (fun hit => unwanted (by decide) hit.2) rfl rfl
  | incr =>
      intro depth
      exact passes_plain (fun hit => unwanted (by decide) hit.2) rfl rfl
  | decr =>
      intro depth
      exact passes_plain (fun hit => unwanted (by decide) hit.2) rfl rfl
  | loop _ induction =>
      intro depth
      exact passes_block (unwanted (by decide)) rfl rfl rfl (induction (depth + 1))
  | chain _ induction =>
      intro depth
      exact passes_block (unwanted (by decide)) rfl rfl rfl
        (induction (depth + 1) (.inl (Nat.succ_pos depth)))
  | empty => exact fun depth => passes_nil depth
  | cons _ _ head tail => exact fun depth => (head depth).append (tail depth)
  | first _ induction => exact fun depth _ => induction depth
  | @branch before body keyword _ start _ front inner =>
      intro depth deep
      have plain : outline.Passes targets [keyword] depth := by
        have missed : ¬ (depth = 0 ∧ keyword ∈ targets) := by
          rintro ⟨rfl, wanted⟩
          rcases deep with impossible | rfl
          · exact absurd impossible (Nat.lt_irrefl 0)
          · rcases start with rfl | rfl <;> simp [Keyword.chainEnds] at wanted
        rcases start with rfl | rfl
        · exact passes_plain missed rfl rfl
        · exact passes_plain missed rfl rfl
      exact (front depth deep).append (plain.append (inner depth))
  | closed => trivial
  | unclosed => trivial

end Grammar

namespace Outline

variable {outline : Outline}

/-- The search comes to the wanted keyword behind a word that it passes over. -/
theorem next?_of_passes {targets word : List Keyword} {keyword : Keyword} {start : Nat}
    (passes : outline.Passes targets word 0)
    (reads : outline.Reads (start + 1) (word ++ [keyword])) (wanted : keyword ∈ targets) :
    outline.next? start targets = some (start + 1 + word.length) := by
  obtain ⟨before, last, _⟩ := reads_append.1 reads
  have bounded := (Array.getElem?_eq_some_iff.1 last).1
  have here : outline[start + 1 + word.length]?.join = some keyword := by rw [last]; rfl
  have count : outline.size - (start + 1) =
      word.length + (outline.size - (start + 1 + word.length + 1) + 1) := by omega
  rw [next?, count, passes _ _ before, seek_target here wanted]

end Outline

end Abacus
