import Abacus.Proofs.Acceptance

/-!
Which keywords belong together. The compiler keeps a stack of frames and so knows each chain of
branches by the frame that its `if` pushed; the search for the end of a branch only counts the
blocks that it enters and leaves, whatever their kind. Main statement: in a program that compiles
the search from a statement of a chain finds the next statement of that chain, or its `endif`.
-/

namespace Abacus

open Grammar

namespace Bytecode.Layout

variable {layout : Layout} {program : Program} {address first : Nat}

/-- The frame on top before `address` is the one that the statement at `opener` pushed. -/
structure Innermost (layout : Layout) (program : Program) (opener address : Nat) : Prop
    extends layout.Stays program opener address where
  top : layout.framesBefore program address = layout.framesBefore program (opener + 1)

structure ChainEnd (layout : Layout) (program : Program) (first address : Nat) : Prop where
  opened : ∃ phrase slot, program.At first phrase (.ifNonzero slot)
  here : ∃ phrase, program.At address phrase .endIf
  innermost : layout.Innermost program first address

/-- The chain of the `if` at `first`: that statement, each `elif` and `else` that finds its frame on
top, and the `endif` that pops it. -/
inductive InChain (layout : Layout) (program : Program) (first : Nat) : Nat → Prop
  | opens {phrase : Phrase} {slot : Slot} (here : program.At first phrase (.ifNonzero slot)) :
      InChain layout program first first
  | branch {address : Nat} {phrase : Phrase} {op : Op}
      (opened : ∃ phrase slot, program.At first phrase (.ifNonzero slot))
      (here : program.At address phrase op)
      (branches : op.keyword = .elifNonzero ∨ op.keyword = .elseBranch)
      (innermost : layout.Innermost program first address) : InChain layout program first address
  | ends {address : Nat} (last : layout.ChainEnd program first address) :
      InChain layout program first address

theorem InChain.opened (member : layout.InChain program first address) :
    ∃ phrase slot, program.At first phrase (.ifNonzero slot) := by
  cases member with
  | opens here => exact ⟨_, _, here⟩
  | branch opened => exact opened
  | ends last => exact last.opened

theorem InChain.innermost (member : layout.InChain program first address)
    (inner : address ≠ first) :
    layout.Innermost program first address ∧
      ∃ phrase op, program.At address phrase op ∧ op.keyword ∈ Keyword.branchEnds := by
  cases member with
  | opens => exact absurd rfl inner
  | branch _ here branches innermost =>
      refine ⟨innermost, _, _, here, ?_⟩
      rcases branches with own | own <;> simp [own, Keyword.branchEnds]
  | ends last =>
      obtain ⟨_, here⟩ := last.here
      exact ⟨last.innermost, _, _, here, by simp [Statement.keyword, Keyword.branchEnds]⟩

theorem inChain_of_innermost {phrase : Phrase} {op : Op}
    (opened : ∃ phrase slot, program.At first phrase (.ifNonzero slot))
    (here : program.At address phrase op) (ends : op.keyword ∈ Keyword.branchEnds)
    (innermost : layout.Innermost program first address) :
    layout.InChain program first address := by
  cases op with
  | elifNonzero => exact .branch opened here (.inl rfl) innermost
  | elseBranch => exact .branch opened here (.inr rfl) innermost
  | endIf => exact .ends ⟨opened, ⟨phrase, here⟩, innermost⟩
  | clear | incr | decr | whileNonzero | endWhile | ifNonzero =>
      simp [Statement.keyword, Keyword.branchEnds] at ends

theorem Compiles.framesBefore_if (compiles : layout.Compiles program) {phrase : Phrase}
    {slot : Slot} (here : program.At address phrase (.ifNonzero slot)) :
    layout.framesBefore program (address + 1) =
      (layout.framesBefore program address).push (.chain false) := by
  obtain ⟨_, _, lowers, next, _⟩ := compiles.lowers here
  cases lowers
  exact next

theorem Compiles.framesBefore_endIf (compiles : layout.Compiles program) {phrase : Phrase}
    (here : program.At address phrase .endIf) :
    layout.framesBefore program (address + 1) = (layout.framesBefore program address).pop := by
  obtain ⟨_, _, lowers, next, _⟩ := compiles.lowers here
  cases lowers
  exact next

theorem Compiles.framesBefore_branch (compiles : layout.Compiles program) {phrase : Phrase}
    {op : Op} (here : program.At address phrase op)
    (branches : op.keyword = .elifNonzero ∨ op.keyword = .elseBranch) :
    layout.framesBefore program (address + 1) = layout.framesBefore program address ∧
      ∃ resolved, (layout.framesBefore program address).top? = some (.chain resolved) := by
  obtain ⟨_, _, lowers, next, _⟩ := compiles.lowers here
  cases lowers with
  | elifBranch top | elseBranch top => exact ⟨next, _, top⟩
  | clear | incr | decr | openLoop | closeLoop | openChain | closeChain =>
      simp [Statement.keyword] at branches

theorem Compiles.chain_stays (compiles : layout.Compiles program) {phrase : Phrase} {op : Op}
    (here : program.At address phrase op) (start : op.keyword ∈ Keyword.branchStarts)
    (member : layout.InChain program first address) :
    layout.Stays program first (address + 1) ∧
      layout.framesBefore program (address + 1) = layout.framesBefore program (first + 1) := by
  cases member with
  | opens => exact ⟨stays_self layout program _, rfl⟩
  | branch _ own branches innermost =>
      have next := (compiles.framesBefore_branch own branches).1.trans innermost.top
      refine ⟨innermost.toStays.trans ?_ (Nat.le_succ _), next⟩
      intro between after bounded
      obtain rfl : between = address + 1 := by omega
      exact ⟨[], congrArg Stack.frames next.symm⟩
  | ends last =>
      obtain ⟨_, own⟩ := last.here
      rw [Program.At, here] at own
      cases own
      simp [Statement.keyword, Keyword.branchStarts] at start

theorem Compiles.exists_chain (compiles : layout.Compiles program) {phrase : Phrase} {op : Op}
    (here : program.At address phrase op) (start : op.keyword ∈ Keyword.branchStarts) :
    ∃ first, layout.InChain program first address := by
  have later : op.keyword = .elifNonzero ∨ op.keyword = .elseBranch →
      ∃ first, layout.InChain program first address := by
    intro branches
    obtain ⟨_, resolved, top⟩ := compiles.framesBefore_branch here branches
    have shape := Stack.frames_of_top? top
    have inside : address ≤ program.size := Nat.le_of_lt (Program.lt_size_of_entry here)
    obtain ⟨opener, stays, pushed, opened⟩ :=
      compiles.exists_opener inside ⟨[], shape.symm⟩
    have same : layout.framesBefore program address = layout.framesBefore program (opener + 1) :=
      Stack.ext (shape.trans pushed.symm)
    exact ⟨opener, .branch opened here branches ⟨stays, same⟩⟩
  cases op with
  | ifNonzero => exact ⟨address, .opens here⟩
  | elifNonzero => exact later (.inl rfl)
  | elseBranch => exact later (.inr rfl)
  | clear | incr | decr | whileNonzero | endWhile | endIf =>
      simp [Statement.keyword, Keyword.branchStarts] at start

/-- Two frames pushed one after the other are never both on top. -/
theorem Compiles.innermost_unique (compiles : layout.Compiles program) {other : Nat}
    (opened : ∃ phrase slot, program.At other phrase (.ifNonzero slot))
    (mine : layout.Innermost program first address)
    (yours : layout.Innermost program other address) : other ≤ first := by
  by_contra later
  obtain ⟨_, _, here⟩ := opened
  have low := (mine.stays other (by omega) (Nat.le_of_lt yours.later)).length_le
  rw [← mine.top, yours.top, compiles.framesBefore_if here, Stack.frames_push,
    List.length_cons] at low
  omega

theorem Compiles.chain_unique (compiles : layout.Compiles program) {other : Nat}
    (mine : layout.InChain program first address) (yours : layout.InChain program other address) :
    other = first := by
  -- The first statement of a chain belongs to no other one, being an `if`.
  have alone : ∀ {head last : Nat}, layout.InChain program head address →
      layout.InChain program last address → address = head → last = head := by
    intro head last opens member same
    by_contra different
    obtain ⟨_, _, own⟩ := opens.opened
    obtain ⟨_, _, _, here, ends⟩ := member.innermost (by omega)
    rw [Program.At, same, own] at here
    cases here
    simp [Statement.keyword, Keyword.branchEnds] at ends
  by_cases head : address = first
  · exact alone mine yours head
  · by_cases last : address = other
    · exact (alone yours mine last).symm
    · have low := compiles.innermost_unique yours.opened (mine.innermost head).1
        (yours.innermost last).1
      have high := compiles.innermost_unique mine.opened (yours.innermost last).1
        (mine.innermost head).1
      omega

theorem Compiles.framesBefore_chainEnd (compiles : layout.Compiles program)
    (last : layout.ChainEnd program first address) :
    layout.framesBefore program (address + 1) = layout.framesBefore program first := by
  obtain ⟨_, _, opened⟩ := last.opened
  obtain ⟨_, here⟩ := last.here
  rw [compiles.framesBefore_endIf here, last.innermost.top, compiles.framesBefore_if opened,
    Stack.pop_push]

theorem Compiles.chainEnd_unique (compiles : layout.Compiles program) {other : Nat}
    (mine : layout.ChainEnd program first address)
    (yours : layout.ChainEnd program first other) : other = address := by
  have order : ∀ {early late : Nat}, layout.ChainEnd program first early →
      layout.ChainEnd program first late → late ≤ early := by
    intro early late popped kept
    by_contra past
    obtain ⟨_, _, opened⟩ := popped.opened
    have held := (kept.innermost.stays (early + 1)
      (Nat.lt_succ_of_lt popped.innermost.later) (by omega)).length_le
    rw [compiles.framesBefore_chainEnd popped, compiles.framesBefore_if opened, Stack.frames_push,
      List.length_cons] at held
    omega
  exact Nat.le_antisymm (order mine yours) (order yours mine)

/-- The blocks open where a search started stay open till it ends, and what it passes by at their
level is no wanted keyword. -/
theorem Compiles.passed_of_seek (compiles : layout.Compiles program) (linked : program.WellLinked)
    {targets : List Keyword} {left index depth found : Nat} {above base : List Frame}
    (sought : program.outline.seek targets left index depth = some found)
    (inside : index + left ≤ program.size)
    (frames : (layout.framesBefore program index).frames = above ++ base)
    (deep : above.length = depth) {between : Nat} (after : index ≤ between)
    (before : between < found) :
    base <:+ (layout.framesBefore program between).frames ∧
      ((layout.framesBefore program between).frames = base →
        ∀ keyword ∈ targets, program.outline[between]? ≠ some (some keyword)) := by
  induction left generalizing index depth above with
  | zero => cases sought
  | succ left induction =>
      have bounded : index < program.size := by omega
      rcases compiles.seek_step linked sought bounded frames deep with
        ⟨rfl, _, _⟩ | ⟨missed, counted, onward, next⟩
      · omega
      · rcases Nat.lt_or_eq_of_le after with later | rfl
        · exact induction onward (by omega) next rfl later
        · rw [frames]
          refine ⟨List.suffix_append _ _, ?_⟩
          intro level
          exact missed (List.append_left_eq_self.1 level)

theorem Compiles.chain_of_next? (compiles : layout.Compiles program) (linked : program.WellLinked)
    {targets : List Keyword} {found : Nat} {phrase : Phrase} {op : Op}
    (here : program.At address phrase op) (start : op.keyword ∈ Keyword.branchStarts)
    (member : layout.InChain program first address)
    (sought : program.outline.next? address targets = some found) :
    address < found ∧ layout.Innermost program first found ∧
      ∀ between, address < between → between < found →
        layout.Innermost program first between →
        ∀ keyword ∈ targets, program.outline[between]? ≠ some (some keyword) := by
  have inside : address < program.size := Program.lt_size_of_entry here
  obtain ⟨stays, same⟩ := compiles.chain_stays here start member
  obtain ⟨later, bounded, ended, _⟩ := compiles.frames_of_next? linked inside sought
  have passed : ∀ {between : Nat}, address + 1 ≤ between → between < found →
      (layout.framesBefore program (address + 1)).frames <:+
          (layout.framesBefore program between).frames ∧
        ((layout.framesBefore program between).frames =
            (layout.framesBefore program (address + 1)).frames →
          ∀ keyword ∈ targets, program.outline[between]? ≠ some (some keyword)) := by
    intro between after before
    rw [Outline.next?, program.size_outline] at sought
    exact compiles.passed_of_seek linked sought (by omega) (List.nil_append _).symm rfl after before
  refine ⟨later, ⟨stays.trans ?_ later, ended.trans same⟩, ?_⟩
  · intro between after bound
    rw [← same]
    rcases Nat.lt_or_eq_of_le bound with before | rfl
    · exact (passed (Nat.le_of_lt after) before).1
    · exact ⟨[], congrArg Stack.frames ended.symm⟩
  · intro between after before innermost
    exact (passed after before).2 (by rw [innermost.top, same])

/-- The search for an end finds one, since no chain is open at the end of the program. -/
theorem Compiles.exists_next? (compiles : layout.Compiles program) (linked : program.WellLinked)
    {targets : List Keyword} {phrase : Phrase} {op : Op} (here : program.At address phrase op)
    (start : op.keyword ∈ Keyword.branchStarts) (last : Keyword.endIf ∈ targets) :
    ∃ found, program.outline.next? address targets = some found := by
  have inside : address < program.size := Program.lt_size_of_entry here
  obtain ⟨_, _, lowers, next, _⟩ := compiles.lowers here
  obtain ⟨below, shape⟩ := chain_of_branchStart start lowers.nest
  rw [← next] at shape
  have whole := compiles.nestAll_before linked (Nat.le_refl _)
  have split := program.outline.wordBefore_append_wordFrom program.size
  rw [Outline.wordFrom_of_le (by rw [program.size_outline]), List.append_nil] at split
  rw [split, ← program.outline.wordBefore_append_wordFrom (address + 1), nestAll_append,
    compiles.nestAll_before linked inside, Option.bind_some, shape] at whole
  apply Outline.exists_seek [] last whole (compiles.no_open_chain linked) rfl
  rw [program.size_outline]
  omega

end Bytecode.Layout

namespace Program

open Bytecode

/-- The search and the stack agree. Each `if`, `elif` and `else` is in one chain; the search for the
end of its branch finds the next statement of that chain, and the search for the end of the chain
finds the `endif` that pops the frame which the `if` pushed. -/
theorem search_agrees_with_stack {phrases : Array Phrase} {container : Container} {address : Nat}
    {phrase : Phrase} {op : Op} (compiled : (ofPhrases phrases).compile = .ok container)
    (here : (ofPhrases phrases).At address phrase op)
    (start : op.keyword ∈ Keyword.branchStarts) :
    ∃ layout first, Layout.ofProgram (ofPhrases phrases) = .ok layout ∧
      layout.InChain (ofPhrases phrases) first address ∧
      (∀ other, layout.InChain (ofPhrases phrases) other address → other = first) ∧
      (∃ next, (Outline.ofPhrases phrases).next? address Keyword.branchEnds = some next ∧
        address < next ∧ layout.InChain (ofPhrases phrases) first next ∧
        ∀ between, address < between → between < next →
          ¬ layout.InChain (ofPhrases phrases) first between) ∧
      ∃ last, (Outline.ofPhrases phrases).next? address Keyword.chainEnds = some last ∧
        address < last ∧ layout.ChainEnd (ofPhrases phrases) first last ∧
        (∀ other, layout.ChainEnd (ofPhrases phrases) first other → other = last) ∧
        layout.framesBefore (ofPhrases phrases) (last + 1) =
          layout.framesBefore (ofPhrases phrases) first := by
  have linked := wellLinked_ofPhrases phrases
  have outline : Outline.ofPhrases phrases = (ofPhrases phrases).outline := by
    apply Array.ext'
    rw [outline_ofPhrases, Outline.ofPhrases, Array.toList_map]
  rw [outline]
  obtain ⟨layout, compiles, _⟩ := compiles_of_compile linked compiled
  have inside : address < (ofPhrases phrases).size := lt_size_of_entry here
  obtain ⟨first, member⟩ := compiles.exists_chain here start
  refine ⟨layout, first, compiles.laid, member, fun _ => compiles.chain_unique member, ?_, ?_⟩
  · obtain ⟨next, found⟩ := compiles.exists_next? linked here start
      (show Keyword.endIf ∈ Keyword.branchEnds by decide)
    obtain ⟨later, innermost, passed⟩ := compiles.chain_of_next? linked here start member found
    obtain ⟨_, _, there, ends⟩ := compiles.at_of_next? linked inside found
    refine ⟨next, found, later, Layout.inChain_of_innermost member.opened there ends innermost, ?_⟩
    intro between after before among
    have behind : first ≤ address := by
      by_contra ahead
      have head : address ≠ first := by omega
      exact ahead (Nat.le_of_lt (member.innermost head).1.later)
    obtain ⟨inner, _, other, statement, own⟩ := among.innermost (by omega)
    exact passed between after before inner other.keyword own (linked.outline_op statement)
  · obtain ⟨last, found⟩ := compiles.exists_next? linked here start
      (show Keyword.endIf ∈ Keyword.chainEnds by decide)
    obtain ⟨later, innermost, _⟩ := compiles.chain_of_next? linked here start member found
    obtain ⟨_, ending, there, ends⟩ := compiles.at_of_next? linked inside found
    have closes : ending = .endIf := by
      cases ending <;> simp [Statement.keyword, Keyword.chainEnds] at ends ⊢
    subst closes
    have popped : layout.ChainEnd (ofPhrases phrases) first last :=
      ⟨member.opened, ⟨_, there⟩, innermost⟩
    exact ⟨last, found, later, popped, fun _ => compiles.chainEnd_unique popped,
      compiles.framesBefore_chainEnd popped⟩

def nested : Array Phrase :=
  #["if a", "while b", "if c", "else", "endif", "end", "", "elif d", "else", "endif"].map
    (Phrase.mk 1)

theorem search_agrees_in_nested :
    ∃ container layout, (ofPhrases nested).compile = .ok container ∧
      (ofPhrases nested).At 0 ⟨1, "if a"⟩ (.ifNonzero 0) ∧
      Layout.ofProgram (ofPhrases nested) = .ok layout ∧
      (Outline.ofPhrases nested).next? 0 Keyword.branchEnds = some 7 ∧
      layout.InChain (ofPhrases nested) 0 7 ∧
      (∀ between, 0 < between → between < 7 → ¬ layout.InChain (ofPhrases nested) 0 between) ∧
      (Outline.ofPhrases nested).next? 0 Keyword.chainEnds = some 9 ∧
      layout.ChainEnd (ofPhrases nested) 0 9 ∧
      layout.framesBefore (ofPhrases nested) 10 = layout.framesBefore (ofPhrases nested) 0 := by
  obtain ⟨container, compiled⟩ : ∃ container, (ofPhrases nested).compile = .ok container := by
    have accepted : (ofPhrases nested).compile.isOk = true := by decide +kernel
    cases compiled : (ofPhrases nested).compile with
    | ok container => exact ⟨container, rfl⟩
    | error fault =>
        rw [compiled] at accepted
        cases accepted
  have here : (ofPhrases nested).At 0 ⟨1, "if a"⟩ (.ifNonzero 0) := by
    unfold At
    decide +kernel
  obtain ⟨layout, first, laid, _, unique, ⟨next, found, _, among, none⟩, last, ended, _, closes, _,
    frames⟩ := search_agrees_with_stack compiled here (by decide)
  have branch : (Outline.ofPhrases nested).next? 0 Keyword.branchEnds = some 7 := by decide +kernel
  have chain : (Outline.ofPhrases nested).next? 0 Keyword.chainEnds = some 9 := by decide +kernel
  obtain rfl : 0 = first := unique 0 (.opens here)
  obtain rfl : next = 7 := Option.some.inj (found.symm.trans branch)
  obtain rfl : last = 9 := Option.some.inj (ended.symm.trans chain)
  exact ⟨container, layout, compiled, here, laid, branch, among, none, chain, closes, frames⟩

end Program

end Abacus
