import Abacus.Proofs.Grammar
import Abacus.Proofs.Linking
import Abacus.Variables

/-!
The structured language that programs write out flat, and its meaning. A block is a finite list
of items: changes of a variable, loops, and chains of branches. A loop runs its body and then
again as long as its variable is not zero after the body; a chain runs the first branch whose
variable is not zero when the chain is entered, an `else` being always such a branch.
-/

namespace Abacus.Structured

mutual

/-- A list of items: nothing, or an item and the items after it. -/
inductive Block where
  | done
  | clear (name : String) (rest : Block)
  | incr (name : String) (rest : Block)
  | decr (name : String) (rest : Block)
  | loop (name : String) (body : Block) (rest : Block)
  | chain (name : String) (first : Block) (others : Branches) (rest : Block)

/-- The branches of a chain after its first, in any order. -/
inductive Branches where
  | none
  | elif (name : String) (body : Block) (rest : Branches)
  | otherwise (body : Block) (rest : Branches)

end

mutual

def Block.statements : Block → List (Statement String)
  | .done => []
  | .clear name rest => .clear name :: rest.statements
  | .incr name rest => .incr name :: rest.statements
  | .decr name rest => .decr name :: rest.statements
  | .loop name body rest =>
    .whileNonzero name :: (body.statements ++ .endWhile :: rest.statements)
  | .chain name first others rest =>
    .ifNonzero name :: (first.statements ++ (others.statements ++ .endIf :: rest.statements))

def Branches.statements : Branches → List (Statement String)
  | .none => []
  | .elif name body rest => .elifNonzero name :: (body.statements ++ rest.statements)
  | .otherwise body rest => .elseBranch :: (body.statements ++ rest.statements)

end

mutual

def Block.depth : Block → Nat
  | .done => 0
  | .clear _ rest | .incr _ rest | .decr _ rest => rest.depth
  | .loop _ body rest => max (body.depth + 1) rest.depth
  | .chain _ first others rest => max (max first.depth others.depth + 1) rest.depth

def Branches.depth : Branches → Nat
  | .none => 0
  | .elif _ body rest | .otherwise body rest => max body.depth rest.depth

end

def Block.names (block : Block) : List String :=
  (block.statements.filterMap Statement.operand?).eraseDups

abbrev Store := String → Int

namespace Store

def zero : Store := fun _ => 0

def set (store : Store) (name : String) (value : Int) : Store :=
  fun other => if other = name then value else store other

def table (store : Store) (names : Array String) : Variables :=
  ⟨names.map fun name => ⟨name, store name⟩⟩

end Store

/-- The first branch whose variable is not zero; the empty block if there is none. -/
def Branches.chosen (store : Store) : Branches → Block
  | .none => .done
  | .elif name body rest => if store name = 0 then rest.chosen store else body
  | .otherwise body _ => body

inductive Outcome where
  | finished (store : Store)
  | overflowed (store : Store)

/-- The meaning of a block: the outcomes it has from a store. -/
inductive Eval : Block → Store → Outcome → Prop
  | done {store : Store} : Eval .done store (.finished store)
  | clear {name : String} {rest : Block} {store : Store} {outcome : Outcome}
      (onward : Eval rest (store.set name 0) outcome) : Eval (.clear name rest) store outcome
  | incr {name : String} {rest : Block} {store : Store} {outcome : Outcome} {value : Int}
      (fits : Value.succ? (store name) = some value)
      (onward : Eval rest (store.set name value) outcome) : Eval (.incr name rest) store outcome
  | incrOver {name : String} {rest : Block} {store : Store}
      (overflows : Value.succ? (store name) = none) :
      Eval (.incr name rest) store (.overflowed store)
  | decr {name : String} {rest : Block} {store : Store} {outcome : Outcome} {value : Int}
      (fits : Value.pred? (store name) = some value)
      (onward : Eval rest (store.set name value) outcome) : Eval (.decr name rest) store outcome
  | decrOver {name : String} {rest : Block} {store : Store}
      (overflows : Value.pred? (store name) = none) :
      Eval (.decr name rest) store (.overflowed store)
  | loopOver {name : String} {body rest : Block} {store last : Store}
      (inner : Eval body store (.overflowed last)) :
      Eval (.loop name body rest) store (.overflowed last)
  | loopAgain {name : String} {body rest : Block} {store between : Store} {outcome : Outcome}
      (inner : Eval body store (.finished between)) (nonzero : between name ≠ 0)
      (again : Eval (.loop name body rest) between outcome) :
      Eval (.loop name body rest) store outcome
  | loopLeave {name : String} {body rest : Block} {store between : Store} {outcome : Outcome}
      (inner : Eval body store (.finished between)) (zero : between name = 0)
      (onward : Eval rest between outcome) : Eval (.loop name body rest) store outcome
  | chainOver {name : String} {first rest : Block} {others : Branches} {store last : Store}
      (inner : Eval ((Branches.elif name first others).chosen store) store (.overflowed last)) :
      Eval (.chain name first others rest) store (.overflowed last)
  | chain {name : String} {first rest : Block} {others : Branches} {store between : Store}
      {outcome : Outcome}
      (inner : Eval ((Branches.elif name first others).chosen store) store (.finished between))
      (onward : Eval rest between outcome) : Eval (.chain name first others rest) store outcome

theorem Branches.depth_chosen_le (store : Store) (branches : Branches) :
    (branches.chosen store).depth ≤ branches.depth := by
  match branches with
  | .none => exact Nat.le_refl _
  | .elif name body rest =>
      have inner := rest.depth_chosen_le store
      rw [chosen, depth]
      split
      · exact Nat.le_trans inner (Nat.le_max_right _ _)
      · exact Nat.le_max_left _ _
  | .otherwise body rest => exact Nat.le_max_left _ _

open Grammar

mutual

theorem Block.derives : (block : Block) → Derives .items (block.statements.map Statement.keyword)
  | .done => .empty
  | .clear _ rest => .cons .clear rest.derives
  | .incr _ rest => .cons .incr rest.derives
  | .decr _ rest => .cons .decr rest.derives
  | .loop _ body rest => by
      have whole := Derives.cons (.loop body.derives) rest.derives
      simpa [Block.statements, Statement.keyword] using whole
  | .chain _ first others rest => by
      have whole := Derives.cons (.chain (others.derives (.first first.derives))) rest.derives
      simpa [Block.statements, Statement.keyword] using whole

theorem Branches.derives {before : List Keyword} (front : Derives .branches before) :
    (branches : Branches) →
      Derives .branches (before ++ branches.statements.map Statement.keyword)
  | .none => by simpa [Branches.statements] using front
  | .elif _ body rest => by
      have whole := rest.derives (.branch front (.inl rfl) body.derives)
      simpa [Branches.statements, Statement.keyword] using whole
  | .otherwise body rest => by
      have whole := rest.derives (.branch front (.inr rfl) body.derives)
      simpa [Branches.statements, Statement.keyword] using whole

end

end Abacus.Structured
