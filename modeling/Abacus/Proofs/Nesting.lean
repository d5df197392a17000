import Abacus.Proofs.CodeLayout
import Abacus.Proofs.Grammar
import Abacus.Proofs.OpenBlocks
import Abacus.Proofs.Seeking

/-!
The compiler's stack follows the keywords of a program as the grammar's stack of open blocks does.
A chain of branches is never open at the end: the stack does not see that, but the search for
the ends of branches does, blind to kinds as it is. In the other direction, where the keywords
fit together and no chain stays open every search finds what it looks for, so lowering meets no
fault.
-/

namespace Abacus

open Grammar

def Frame.block : Frame → Block
  | .loop _ _ => .loop
  | .chain _ => .chain

def Stack.blocks (stack : Stack) : List Block := stack.frames.map Frame.block

namespace Stack

@[simp] theorem blocks_push (stack : Stack) (frame : Frame) :
    (stack.push frame).blocks = frame.block :: stack.blocks := rfl

theorem blocks_of_top? {stack : Stack} {frame : Frame} (top : stack.top? = some frame) :
    stack.blocks = frame.block :: stack.pop.blocks := by
  rw [blocks, frames_of_top? top]
  rfl

theorem length_blocks (stack : Stack) : stack.blocks.length = stack.frames.length :=
  List.length_map _

theorem top?_of_blocks {stack : Stack} {block : Block} {below : List Block}
    (shape : stack.blocks = block :: below) :
    ∃ frame, stack.top? = some frame ∧ frame.block = block := by
  obtain ⟨frame, rest, frames, same, _⟩ := List.map_eq_cons_iff.1 shape
  exact ⟨frame, by rw [top?, frames, List.head?_cons], same⟩

theorem chain_of_nest {stack : Stack} {keyword : Keyword} {after : List Block}
    (inner : keyword = .elifNonzero ∨ keyword = .elseBranch ∨ keyword = .endIf)
    (nested : nest keyword stack.blocks = some after) :
    ∃ resolved, stack.top? = some (.chain resolved) := by
  cases shape : stack.blocks with
  | nil => rcases inner with rfl | rfl | rfl <;> simp [shape, nest] at nested
  | cons block below =>
      obtain ⟨frame, top, rfl⟩ := top?_of_blocks shape
      cases frame with
      | chain resolved => exact ⟨resolved, top⟩
      | loop returnTo slot =>
          rcases inner with rfl | rfl | rfl <;> simp [shape, nest, Frame.block] at nested

end Stack

def Keyword.branchStarts : List Keyword := [.ifNonzero, .elifNonzero, .elseBranch]

namespace Outline

def wordBefore (outline : Outline) (address : Nat) : List Keyword :=
  (outline.toList.take address).filterMap id

def wordFrom (outline : Outline) (address : Nat) : List Keyword :=
  (outline.toList.drop address).filterMap id

variable {outline : Outline} {address : Nat} {entry : Option Keyword}

theorem wordBefore_succ (here : outline[address]? = some entry) :
    outline.wordBefore (address + 1) = outline.wordBefore address ++ entry.toList := by
  have next : outline.toList[address]? = some entry := by rw [Array.getElem?_toList, here]
  cases entry <;> simp [wordBefore, List.take_add_one, next]

theorem wordFrom_eq (here : outline[address]? = some entry) :
    outline.wordFrom address = entry.toList ++ outline.wordFrom (address + 1) := by
  obtain ⟨inside, found⟩ := Array.getElem?_eq_some_iff.1 here
  have shape : outline.toList.drop address = entry :: outline.toList.drop (address + 1) := by
    rw [List.drop_eq_getElem_cons (by simpa using inside)]
    simp [found]
  rw [wordFrom, wordFrom, shape]
  cases entry <;> simp

theorem wordFrom_of_le (past : outline.size ≤ address) : outline.wordFrom address = [] := by
  rw [wordFrom, List.drop_of_length_le (by simpa using past)]
  rfl

theorem wordBefore_append_wordFrom (outline : Outline) (address : Nat) :
    outline.wordBefore address ++ outline.wordFrom address = outline.wordFrom 0 := by
  rw [wordBefore, wordFrom, wordFrom, ← List.filterMap_append, List.take_append_drop,
    List.drop_zero]

/-- In a word whose chains all end, the search for the end of an open chain, or of its branch,
finds one. -/
theorem exists_seek {targets : List Keyword} {left index depth : Nat}
    {below final : List Block} (above : List Block) (last : Keyword.endIf ∈ targets)
    (nested : nestAll (outline.wordFrom index) (above ++ .chain :: below) = some final)
    (ended : Block.chain ∉ final) (deep : above.length = depth)
    (whole : index + left = outline.size) :
    ∃ found, outline.seek targets left index depth = some found := by
  induction left generalizing index depth above with
  | zero =>
      rw [wordFrom_of_le (by omega)] at nested
      cases nested
      simp at ended
  | succ left induction =>
      have bounded : index < outline.size := by omega
      have onward : index + 1 + left = outline.size := by omega
      have here : outline[index]? = some outline[index] := Array.getElem?_eq_getElem bounded
      rw [wordFrom_eq here] at nested
      cases entry : outline[index] with
      | none =>
          rw [entry] at here nested
          rw [seek_blank (by rw [here]; rfl)]
          exact induction above nested deep onward
      | some keyword =>
          rw [entry] at here nested
          have found : outline[index]?.join = some keyword := by rw [here]; rfl
          rw [Option.toList_some, List.singleton_append] at nested
          obtain ⟨after, first, rest⟩ := Option.bind_eq_some_iff.1 nested
          by_cases hit : depth = 0 ∧ keyword ∈ targets
          · obtain ⟨rfl, wanted⟩ := hit
            exact ⟨index, seek_target found wanted⟩
          · rcases nest_cases first with ⟨opens, _, block, rfl⟩ |
              ⟨opens, closes, block, shape, kind⟩ | ⟨opens, closes, rfl⟩
            · rw [seek_opening found hit opens]
              exact induction (block :: above) rest (by simp [deep]) onward
            · cases above with
              | nil =>
                  -- The chain itself ends here.
                  cases shape
                  exact absurd ⟨deep.symm, kind rfl ▸ last⟩ hit
              | cons inner above =>
                  rw [List.cons_append, List.cons.injEq] at shape
                  rw [← shape.2] at rest
                  rw [← deep, List.length_cons, seek_closing found opens closes]
                  exact induction above rest rfl onward
            · rw [seek_plain found hit opens closes]
              exact induction above rest deep onward

end Outline

namespace Bytecode.Layout

variable {layout : Layout} {program : Program} {address : Nat}

/-- Lowering a statement does to the kinds of the open blocks what its keyword does. -/
theorem Lowers.nest {frames after : Stack} {op : Op} {records : List Record}
    (lowers : layout.Lowers program address frames op records after) :
    nest op.keyword frames.blocks = some after.blocks := by
  cases lowers with
  | clear | incr | decr | openLoop | openChain => rfl
  | closeLoop top | elifBranch top | elseBranch top | closeChain top =>
      rw [Stack.blocks_of_top? top]
      rfl

theorem Compiles.nestAll_before (compiles : layout.Compiles program)
    (linked : program.WellLinked) (inside : address ≤ program.size) :
    nestAll (program.outline.wordBefore address) [] =
      some (layout.framesBefore program address).blocks := by
  induction address with
  | zero => rfl
  | succ address induction =>
      have before := induction (Nat.le_of_succ_le inside)
      rcases compiles.entry_cases inside with ⟨phrase, here⟩ | ⟨phrase, op, here⟩
      · rw [Outline.wordBefore_succ (linked.outline_skipped here), (compiles.skipped here).1]
        simpa using before
      · obtain ⟨_, _, lowers, next, _⟩ := compiles.lowers here
        rw [Outline.wordBefore_succ (linked.outline_op here), nestAll_append, before, next,
          Option.bind_some, Option.toList_some, nestAll_singleton]
        exact lowers.nest

theorem Compiles.length_blocks_le (compiles : layout.Compiles program)
    (inside : address ≤ program.size) :
    (layout.framesBefore program address).blocks.length ≤ Stack.limit := by
  have room : ∀ {stack : Stack} {frame : Frame}, (stack.push frame).overfull = false →
      (stack.push frame).blocks.length ≤ Stack.limit := by
    intro stack frame fits
    rw [Stack.length_blocks]
    exact Nat.le_of_not_lt fun overfull => by simp [Stack.overfull_iff.2 overfull] at fits
  induction address with
  | zero => exact Nat.zero_le _
  | succ address induction =>
      have before := induction (Nat.le_of_succ_le inside)
      rcases compiles.entry_cases inside with ⟨phrase, here⟩ | ⟨phrase, op, here⟩
      · rw [(compiles.skipped here).1]
        exact before
      · obtain ⟨_, _, lowers, next, _⟩ := compiles.lowers here
        rw [next]
        cases lowers with
        | clear | incr | decr | elifBranch | elseBranch => exact before
        | openLoop fits | openChain fits => exact room fits
        | closeLoop top | closeChain top =>
            rw [Stack.blocks_of_top? top, List.length_cons] at before
            exact Nat.le_of_succ_le before

theorem Compiles.chain_ends (compiles : layout.Compiles program) (linked : program.WellLinked)
    {phrase : Phrase} {slot : Slot} (here : program.At address phrase (.ifNonzero slot)) :
    ∃ chainEnd, program.outline.next? address Keyword.chainEnds = some chainEnd := by
  have inside : address < program.size := Program.lt_size_of_entry here
  obtain ⟨_, _, lowers, _⟩ := compiles.lowers here
  cases lowers with
  | @openChain _ _ next _ _ found =>
      obtain ⟨other, op, there, ends⟩ := compiles.at_of_next? linked inside found
      have onward := Outline.next?_chainEnds found
      rw [linked.outline_op there, Option.join_some] at onward
      obtain ⟨_, _, lowers, _⟩ := compiles.lowers there
      simp only [Keyword.branchEnds, List.mem_cons, List.not_mem_nil, or_false] at ends
      cases lowers with
      | closeChain => exact ⟨next, onward⟩
      | elifBranch _ _ last | elseBranch _ _ last => exact ⟨_, onward.trans last⟩
      | clear | incr | decr | openLoop | closeLoop | openChain =>
          simp [Statement.keyword] at ends

/-- The chains still open at the end are among those open at any address. -/
theorem Compiles.count_chain_le (compiles : layout.Compiles program) (linked : program.WellLinked)
    (inside : address ≤ program.size) :
    (layout.framesBefore program program.size).blocks.count .chain ≤
      (layout.framesBefore program address).blocks.count .chain := by
  -- On the length of what follows, since a chain is passed over as a whole.
  induction remaining : program.size - address using Nat.strongRecOn generalizing address with
  | _ remaining induction =>
      have later : ∀ {behind : Nat}, address < behind → behind ≤ program.size →
          (layout.framesBefore program program.size).blocks.count .chain ≤
            (layout.framesBefore program behind).blocks.count .chain :=
        fun forward bounded => induction _ (by omega) bounded rfl
      by_cases last : address = program.size
      · exact Nat.le_of_eq (by rw [last])
      · have bounded : address < program.size := Nat.lt_of_le_of_ne inside last
        have next := later (Nat.lt_succ_self address) bounded
        rcases compiles.entry_cases bounded with ⟨phrase, here⟩ | ⟨phrase, op, here⟩
        · rw [(compiles.skipped here).1] at next
          exact next
        · obtain ⟨_, _, lowers, after, _⟩ := compiles.lowers here
          rw [after] at next
          cases lowers with
          | clear | incr | decr | elifBranch | elseBranch => exact next
          | openLoop => simpa [Frame.block] using next
          | closeLoop top | closeChain top =>
              rw [Stack.blocks_of_top? top]
              exact Nat.le_trans next List.count_le_count_cons
          | openChain =>
              -- Past the end of the chain the blocks are those before its `if`.
              obtain ⟨chainEnd, found⟩ := compiles.chain_ends linked here
              obtain ⟨forward, ends, same, _⟩ := compiles.frames_of_next? linked bounded found
              obtain ⟨_, closing, there, wanted⟩ := compiles.at_of_next? linked bounded found
              obtain ⟨_, _, lowers, closed, _⟩ := compiles.lowers there
              cases lowers with
              | closeChain =>
                  have behind := later (Nat.lt_succ_of_lt forward) ends
                  rw [closed, same, after, Stack.pop_push] at behind
                  exact behind
              | _ => simp [Statement.keyword, Keyword.chainEnds] at wanted

theorem Compiles.no_open_chain (compiles : layout.Compiles program)
    (linked : program.WellLinked) :
    Block.chain ∉ (layout.framesBefore program program.size).blocks := by
  have none := compiles.count_chain_le linked (Nat.zero_le _)
  rw [framesBefore_zero] at none
  exact List.count_eq_zero.1 (Nat.le_zero.1 none)

/-- A statement can be lowered if its keyword fits the open blocks, there is room for the block it
opens, and the ends of its branch and chain are found. -/
theorem exists_lowers {frames : Stack} {op : Op} {after : List Block}
    (nested : nest op.keyword frames.blocks = some after) (room : after.length ≤ Stack.limit)
    (sure : op.keyword ∈ Keyword.branchStarts → ∃ always, layout.always? = some always)
    (ends : op.keyword ∈ Keyword.branchStarts → ∀ targets, Keyword.endIf ∈ targets →
      ∃ found, program.outline.next? address targets = some found) :
    ∃ records next, layout.Lowers program address frames op records next := by
  have fits : ∀ frame : Frame, after = frame.block :: frames.blocks →
      (frames.push frame).overfull = false := by
    intro frame shape
    rw [← Bool.not_eq_true, Stack.overfull_iff, ← Stack.length_blocks, Stack.blocks_push, ← shape]
    exact Nat.not_lt.2 room
  have branchEnd := fun start => ends start Keyword.branchEnds (by decide)
  have chainEnd := fun start => ends start Keyword.chainEnds (by decide)
  cases op with
  | clear slot => exact ⟨_, _, .clear⟩
  | incr slot => exact ⟨_, _, .incr⟩
  | decr slot => exact ⟨_, _, .decr⟩
  | whileNonzero slot => exact ⟨_, _, .openLoop (fits _ (Option.some.inj nested).symm)⟩
  | endWhile =>
      cases shape : frames.blocks with
      | nil => simp [shape, nest, Statement.keyword] at nested
      | cons block below =>
          obtain ⟨frame, top, rfl⟩ := Stack.top?_of_blocks shape
          cases frame with
          | loop returnTo slot => exact ⟨_, _, .closeLoop top⟩
          | chain resolved => simp [shape, nest, Statement.keyword, Frame.block] at nested
  | ifNonzero slot =>
      have start : Keyword.ifNonzero ∈ Keyword.branchStarts := by decide
      obtain ⟨always, sure⟩ := sure start
      obtain ⟨next, found⟩ := branchEnd start
      exact ⟨_, _, .openChain (fits _ (Option.some.inj nested).symm) sure found⟩
  | elifNonzero slot =>
      obtain ⟨resolved, top⟩ := Stack.chain_of_nest (by simp [Statement.keyword]) nested
      have start : Keyword.elifNonzero ∈ Keyword.branchStarts := by decide
      obtain ⟨always, sure⟩ := sure start
      obtain ⟨last, closes⟩ := chainEnd start
      obtain ⟨next, found⟩ := branchEnd start
      exact ⟨_, _, .elifBranch top sure closes found⟩
  | elseBranch =>
      obtain ⟨resolved, top⟩ := Stack.chain_of_nest (by simp [Statement.keyword]) nested
      have start : Keyword.elseBranch ∈ Keyword.branchStarts := by decide
      obtain ⟨always, sure⟩ := sure start
      obtain ⟨last, closes⟩ := chainEnd start
      exact ⟨_, _, .elseBranch top sure closes⟩
  | endIf =>
      obtain ⟨resolved, top⟩ := Stack.chain_of_nest (by simp [Statement.keyword]) nested
      exact ⟨_, _, .closeChain top⟩

theorem branches_iff_keyword (op : Op) :
    (Linked.op op).branches = true ↔ op.keyword ∈ Keyword.branchStarts := by
  cases op <;> simp [Linked.branches, Linked.op?, Statement.keyword, Keyword.branchStarts]

/-- A program that can be laid out has a slot for sure jumps if one of its statements needs it. -/
theorem exists_always (laid : ofProgram program = .ok layout) {phrase : Phrase} {op : Op}
    (here : program.At address phrase op) (start : op.keyword ∈ Keyword.branchStarts) :
    ∃ always, layout.always? = some always := by
  obtain ⟨_, _, _, rfl⟩ := ofProgram_eq_ok_iff.1 laid
  have branching : program.branches = true :=
    Array.any_eq_true'.2 ⟨_, Array.mem_of_getElem? here, (branches_iff_keyword op).2 start⟩
  exact ⟨program.slots.size.toUInt16, by simp [natural, branching]⟩

theorem chain_of_branchStart {keyword : Keyword} {before after : List Block}
    (start : keyword ∈ Keyword.branchStarts) (nested : nest keyword before = some after) :
    ∃ below, after = .chain :: below := by
  unfold nest at nested
  split at nested <;> cases nested <;> simp_all [Keyword.branchStarts]

theorem draftBefore_lowers {phrase : Phrase} {op : Op} {records : List Record} {after : Stack}
    (here : program.At address phrase op)
    (sound : (layout.draftBefore program address).fault? = none)
    (lowers : layout.Lowers program address (layout.framesBefore program address) op records
      after) :
    (layout.draftBefore program (address + 1)).fault? = none ∧
      layout.framesBefore program (address + 1) = after := by
  have lowered : layout.lower program address phrase (layout.draftBefore program address).frames
      op = .ok (records, after) := lower_eq_ok_iff.2 lowers
  have next := draftBefore_next here sound
  simp only [lowerFrom, Linked.op?, lowered] at next
  simp [framesBefore, next]

/-- Lowering a program whose keywords fit together meets no fault. -/
theorem compiles_of_nested (linked : program.WellLinked) (laid : ofProgram program = .ok layout)
    {final : List Block} (nested : nestAll (program.outline.wordFrom 0) [] = some final)
    (ended : Block.chain ∉ final)
    (room : ∀ address, (program.outline.wordBefore address).countP Keyword.opensBlock ≤
      (program.outline.wordBefore address).countP Keyword.closesBlock + Stack.limit) :
    layout.Compiles program := by
  have follows : ∀ address ≤ program.size, (layout.draftBefore program address).fault? = none ∧
      nestAll (program.outline.wordBefore address) [] =
        some (layout.framesBefore program address).blocks := by
    intro address inside
    induction address with
    | zero => exact ⟨rfl, rfl⟩
    | succ address induction =>
        obtain ⟨sound, before⟩ := induction (Nat.le_of_succ_le inside)
        rcases entry_cases laid inside with ⟨phrase, here⟩ | ⟨phrase, op, here⟩
        · have next := draftBefore_next here sound
          simp only [framesBefore, next]
          rw [Outline.wordBefore_succ (linked.outline_skipped here), Option.toList_none,
            List.append_nil]
          exact ⟨sound, before⟩
        · have spelled := linked.outline_op here
          have rest := nested
          rw [← program.outline.wordBefore_append_wordFrom address, nestAll_append, before,
            Option.bind_some, Outline.wordFrom_eq spelled, Option.toList_some,
            List.singleton_append] at rest
          obtain ⟨after, first, onward⟩ := Option.bind_eq_some_iff.1 rest
          have through : nestAll (program.outline.wordBefore (address + 1)) [] = some after := by
            rw [Outline.wordBefore_succ spelled, nestAll_append, before, Option.bind_some,
              Option.toList_some, nestAll_singleton, first]
          have depth : after.length ≤ Stack.limit := by
            have counted := length_nestAll through
            have bounded := room (address + 1)
            rw [List.length_nil] at counted
            omega
          have ends : op.keyword ∈ Keyword.branchStarts → ∀ targets, Keyword.endIf ∈ targets →
              ∃ found, program.outline.next? address targets = some found := by
            intro start targets last
            obtain ⟨below, rfl⟩ := chain_of_branchStart start first
            apply Outline.exists_seek [] last onward ended rfl
            rw [program.size_outline]
            omega
          obtain ⟨records, stack, lowers⟩ :=
            exists_lowers first depth (exists_always laid here) ends
          obtain ⟨unharmed, arrived⟩ := draftBefore_lowers here sound lowers
          have kinds := lowers.nest.symm.trans first
          rw [arrived, through, Option.some.inj kinds]
          exact ⟨unharmed, rfl⟩
  refine ⟨laid, ?_⟩
  rw [← draftBefore_size]
  exact (follows program.size (Nat.le_refl _)).1

end Bytecode.Layout

end Abacus
