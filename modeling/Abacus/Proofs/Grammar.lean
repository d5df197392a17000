import Mathlib.Data.List.Induction
import Abacus.Keyword

/-!
The block grammar of programs, as a grammar of keywords:

* a program is `item*` or `item* while program`;
* an item is `clear`, `incr`, `decr`, `while item* end` or `if branches endif`;
* branches are `item*`, with `elif item*` and `else item*` after it in any number and order.

Main statement: a word is a program exactly when a stack of open blocks can follow it from the
first keyword to the last and holds no chain of branches in the end.
-/

namespace Abacus

namespace Grammar

inductive Symbol where
  | program
  | items
  | item
  | branches

inductive Derives : Symbol → List Keyword → Prop
  | clear : Derives .item [.clear]
  | incr : Derives .item [.incr]
  | decr : Derives .item [.decr]
  | loop {body : List Keyword} (inner : Derives .items body) :
      Derives .item (.whileNonzero :: body ++ [.endWhile])
  | chain {body : List Keyword} (inner : Derives .branches body) :
      Derives .item (.ifNonzero :: body ++ [.endIf])
  | empty : Derives .items []
  | cons {first rest : List Keyword} (head : Derives .item first) (tail : Derives .items rest) :
      Derives .items (first ++ rest)
  | first {body : List Keyword} (inner : Derives .items body) : Derives .branches body
  | branch {before body : List Keyword} {keyword : Keyword} (front : Derives .branches before)
      (start : keyword = .elifNonzero ∨ keyword = .elseBranch) (inner : Derives .items body) :
      Derives .branches (before ++ keyword :: body)
  | closed {body : List Keyword} (inner : Derives .items body) : Derives .program body
  | unclosed {body rest : List Keyword} (inner : Derives .items body)
      (tail : Derives .program rest) : Derives .program (body ++ .whileNonzero :: rest)

inductive Block where
  | loop
  | chain
deriving DecidableEq

/-- What a keyword does to the blocks open before it, the innermost first. -/
def nest : Keyword → List Block → Option (List Block)
  | .clear, blocks | .incr, blocks | .decr, blocks => some blocks
  | .whileNonzero, blocks => some (.loop :: blocks)
  | .endWhile, .loop :: blocks => some blocks
  | .ifNonzero, blocks => some (.chain :: blocks)
  | .elifNonzero, .chain :: blocks | .elseBranch, .chain :: blocks => some (.chain :: blocks)
  | .endIf, .chain :: blocks => some blocks
  | _, _ => none

def nestAll : List Keyword → List Block → Option (List Block)
  | [], blocks => some blocks
  | keyword :: rest, blocks => (nest keyword blocks).bind (nestAll rest)

theorem nestAll_append (front back : List Keyword) (blocks : List Block) :
    nestAll (front ++ back) blocks = (nestAll front blocks).bind (nestAll back) := by
  induction front generalizing blocks with
  | nil => rfl
  | cons keyword front induction =>
      simp only [List.cons_append, nestAll, Option.bind_assoc]
      congr 1
      funext after
      exact induction after

theorem nestAll_singleton (keyword : Keyword) (blocks : List Block) :
    nestAll [keyword] blocks = nest keyword blocks := by
  cases found : nest keyword blocks <;> simp [nestAll, found]

def Symbol.Keeps : Symbol → List Keyword → Prop
  | .item, word | .items, word => ∀ blocks, nestAll word blocks = some blocks
  | .branches, word => ∀ blocks, nestAll word (.chain :: blocks) = some (.chain :: blocks)
  | .program, word => ∀ blocks, ∃ loops, Block.chain ∉ loops ∧
      nestAll word blocks = some (loops ++ blocks)

theorem keeps_of_derives {symbol : Symbol} {word : List Keyword} (derives : Derives symbol word) :
    symbol.Keeps word := by
  induction derives with
  | clear | incr | decr | empty => exact fun blocks => rfl
  | loop _ induction =>
      intro blocks
      have body := induction (.loop :: blocks)
      simp [nestAll, nest, nestAll_append, body]
  | chain _ induction =>
      intro blocks
      simp [nestAll, nest, nestAll_append, induction blocks]
  | cons _ _ head tail =>
      intro blocks
      rw [nestAll_append, head blocks, Option.bind_some, tail blocks]
  | first _ induction => exact fun blocks => induction (.chain :: blocks)
  | branch _ start _ front inner =>
      intro blocks
      have body := inner (.chain :: blocks)
      rcases start with rfl | rfl <;>
        simp [nestAll, nest, nestAll_append, front blocks, body]
  | closed _ induction => exact fun blocks => ⟨[], by simp, induction blocks⟩
  | unclosed _ _ inner tail =>
      intro blocks
      obtain ⟨loops, plain, rest⟩ := tail (.loop :: blocks)
      refine ⟨loops ++ [.loop], by simp [plain], ?_⟩
      rw [nestAll_append, inner blocks]
      simp [nestAll, nest, rest]

theorem Derives.append {front back : List Keyword} (left : Derives .items front)
    (right : Derives .items back) : Derives .items (front ++ back) := by
  generalize kind : Symbol.items = symbol at left
  induction left with
  | empty => exact right
  | cons head _ _ tail =>
      rw [List.append_assoc]
      exact .cons head (tail kind)
  | _ => cases kind

theorem Derives.single {word : List Keyword} (item : Derives .item word) : Derives .items word := by
  have := Derives.cons item .empty
  rwa [List.append_nil] at this

theorem Derives.branches_concat {before word : List Keyword} (front : Derives .branches before)
    (item : Derives .item word) : Derives .branches (before ++ word) := by
  cases front with
  | first inner => exact .first (inner.append item.single)
  | branch front start inner =>
      rw [List.append_assoc, List.cons_append]
      exact .branch front start (inner.append item.single)

/-- The words that lead from no open blocks to the given ones. -/
inductive Leads : List Block → List Keyword → Prop
  | outside {word : List Keyword} (items : Derives .items word) : Leads [] word
  | loop {blocks : List Block} {before body : List Keyword} (front : Leads blocks before)
      (items : Derives .items body) : Leads (.loop :: blocks) (before ++ .whileNonzero :: body)
  | chain {blocks : List Block} {before body : List Keyword} (front : Leads blocks before)
      (branches : Derives .branches body) :
      Leads (.chain :: blocks) (before ++ .ifNonzero :: body)

theorem Leads.item {blocks : List Block} {before word : List Keyword} (leads : Leads blocks before)
    (item : Derives .item word) : Leads blocks (before ++ word) := by
  cases leads with
  | outside items => exact .outside (items.append item.single)
  | loop front items =>
      rw [List.append_assoc, List.cons_append]
      exact .loop front (items.append item.single)
  | chain front branches =>
      rw [List.append_assoc, List.cons_append]
      exact .chain front (branches.branches_concat item)

theorem Leads.next {blocks after : List Block} {before : List Keyword} {keyword : Keyword}
    (leads : Leads blocks before) (nested : nest keyword blocks = some after) :
    Leads after (before ++ [keyword]) := by
  cases keyword with
  | clear =>
      cases nested
      exact leads.item .clear
  | incr =>
      cases nested
      exact leads.item .incr
  | decr =>
      cases nested
      exact leads.item .decr
  | whileNonzero =>
      cases nested
      exact .loop leads .empty
  | ifNonzero =>
      cases nested
      exact .chain leads (.first .empty)
  | endWhile =>
      cases leads with
      | outside => cases nested
      | chain => cases nested
      | loop front items =>
          cases nested
          have whole := front.item (.loop items)
          simpa using whole
  | endIf =>
      cases leads with
      | outside => cases nested
      | loop => cases nested
      | chain front branches =>
          cases nested
          have whole := front.item (.chain branches)
          simpa using whole
  | elifNonzero =>
      cases leads with
      | outside => cases nested
      | loop => cases nested
      | chain front branches =>
          cases nested
          rw [List.append_assoc, List.cons_append]
          exact .chain front (.branch branches (.inl rfl) .empty)
  | elseBranch =>
      cases leads with
      | outside => cases nested
      | loop => cases nested
      | chain front branches =>
          cases nested
          rw [List.append_assoc, List.cons_append]
          exact .chain front (.branch branches (.inr rfl) .empty)

theorem leads_of_nestAll {word : List Keyword} {blocks : List Block}
    (nested : nestAll word [] = some blocks) : Leads blocks word := by
  induction word using List.reverseRecOn generalizing blocks with
  | nil =>
      cases nested
      exact .outside .empty
  | append_singleton word keyword induction =>
      rw [nestAll_append] at nested
      obtain ⟨before, front, last⟩ := Option.bind_eq_some_iff.1 nested
      rw [nestAll_singleton] at last
      exact (induction front).next last

/-- Open loops are the unclosed ones of a program. -/
theorem Leads.unclosed {blocks : List Block} {before rest : List Keyword}
    (leads : Leads blocks before) (plain : Block.chain ∉ blocks) (tail : Derives .program rest) :
    Derives .program (before ++ .whileNonzero :: rest) := by
  induction leads generalizing rest with
  | outside items => exact .unclosed items tail
  | loop _ items induction =>
      rw [List.append_assoc, List.cons_append]
      exact induction (fun member => plain (List.mem_cons_of_mem _ member)) (.unclosed items tail)
  | chain => exact absurd List.mem_cons_self plain

theorem derives_program_iff {word : List Keyword} :
    Derives .program word ↔ ∃ blocks, nestAll word [] = some blocks ∧ Block.chain ∉ blocks := by
  constructor
  · intro derives
    obtain ⟨loops, plain, nested⟩ := keeps_of_derives derives []
    exact ⟨loops, by simpa using nested, plain⟩
  · rintro ⟨blocks, nested, plain⟩
    have leads := leads_of_nestAll nested
    cases leads with
    | outside items => exact .closed items
    | loop front items =>
        exact front.unclosed (fun member => plain (List.mem_cons_of_mem _ member)) (.closed items)
    | chain => exact absurd List.mem_cons_self plain

theorem nest_cases {keyword : Keyword} {before after : List Block}
    (nested : nest keyword before = some after) :
    (keyword.opensBlock = true ∧ keyword.closesBlock = false ∧ ∃ block, after = block :: before) ∨
      (keyword.opensBlock = false ∧ keyword.closesBlock = true ∧
        ∃ block, before = block :: after ∧ (block = .chain → keyword = .endIf)) ∨
      (keyword.opensBlock = false ∧ keyword.closesBlock = false ∧ after = before) := by
  unfold nest at nested
  split at nested <;> cases nested <;> simp [Keyword.opensBlock, Keyword.closesBlock]

/-- The blocks opened are those closed and those still open. -/
theorem length_nestAll {word : List Keyword} {before after : List Block}
    (nested : nestAll word before = some after) :
    word.countP Keyword.opensBlock + before.length =
      word.countP Keyword.closesBlock + after.length := by
  induction word generalizing before with
  | nil =>
      cases nested
      rfl
  | cons keyword word induction =>
      obtain ⟨between, first, rest⟩ := Option.bind_eq_some_iff.1 nested
      have counted := induction rest
      rw [List.countP_cons, List.countP_cons]
      rcases nest_cases first with ⟨opens, closes, block, rfl⟩ | ⟨opens, closes, block, rfl, _⟩ |
        ⟨opens, closes, rfl⟩
      · simp only [opens, closes, List.length_cons, Bool.false_eq_true, if_true, if_false] at *
        omega
      · simp only [opens, closes, List.length_cons, Bool.false_eq_true, if_true, if_false] at *
        omega
      · simp only [opens, closes, Bool.false_eq_true, if_false] at *
        omega

end Grammar

end Abacus
