import Abacus.Bytecode.Machine
import Abacus.Proofs.Steps

/-!
Runs of the machine as rows of ticks, and what a tick does at each record. A run of the machine
ends where a tick does not go on, whatever number of ticks is allowed.
-/

namespace Abacus.Bytecode.Machine

def Ending.tick : Ending → Tick
  | .halted => .halted
  | .overflowed => .overflowed

theorem Ending.tick_injective : Function.Injective Ending.tick := by
  intro left right same
  cases left <;> cases right <;> simp_all [Ending.tick]

def Goes (code : List Record) (before after : Machine) : Prop := before.tick code = .went after

variable {code : List Record} {machine start finish : Machine}

theorem goes_deterministic (code : List Record) : Deterministic (Goes code) := by
  intro start left right toLeft toRight
  have same : Tick.went left = .went right := toLeft.symm.trans toRight
  exact Tick.went.inj same

theorem final_of_ending {ending : Ending} (ends : machine.tick code = ending.tick) :
    Final (Goes code) machine := by
  intro after goes
  rw [Goes, ends] at goes
  cases ending <;> cases goes

theorem goes_or_ends (code : List Record) (machine : Machine) :
    (∃ after, Goes code machine after) ∨ ∃ ending : Ending, machine.tick code = ending.tick := by
  cases ticked : machine.tick code with
  | went after => exact .inl ⟨after, ticked⟩
  | halted => exact .inr ⟨.halted, rfl⟩
  | overflowed => exact .inr ⟨.overflowed, rfl⟩

theorem run?_of_goes {after : Machine} (goes : Goes code machine after) (ticks : Nat) :
    run? code (ticks + 1) machine = run? code ticks after := by
  rw [Goes] at goes
  simp only [run?, goes]

theorem run?_of_ending {ending : Ending} (ends : machine.tick code = ending.tick) (ticks : Nat) :
    run? code (ticks + 1) machine = some (ending, machine) := by
  cases ending <;> simp only [run?, ends, Ending.tick]

/-- A run uses up its ticks or comes to an ending. -/
theorem run?_cases (code : List Record) (ticks : Nat) (start : Machine) :
    (∃ finish, Steps (Goes code) ticks start finish ∧ run? code ticks start = none) ∨
      ∃ count finish ending, Steps (Goes code) count start finish ∧
        finish.tick code = Ending.tick ending ∧ run? code ticks start = some (ending, finish) := by
  induction ticks generalizing start with
  | zero => exact .inl ⟨start, .none start, rfl⟩
  | succ ticks induction =>
      rcases goes_or_ends code start with ⟨next, goes⟩ | ⟨ending, ends⟩
      · rw [run?_of_goes goes]
        rcases induction next with ⟨finish, steps, answer⟩ |
          ⟨count, finish, ending, steps, ends, answer⟩
        · exact .inl ⟨finish, .cons goes steps, answer⟩
        · exact .inr ⟨count + 1, finish, ending, .cons goes steps, ends, answer⟩
      · exact .inr ⟨0, start, ending, .none start, ends, run?_of_ending ends ticks⟩

theorem run?_of_steps {count : Nat} {ending : Ending} (steps : Steps (Goes code) count start finish)
    (ends : finish.tick code = ending.tick) :
    run? code (count + 1) start = some (ending, finish) := by
  induction steps with
  | none => exact run?_of_ending ends 0
  | cons goes _ induction =>
      rw [run?_of_goes goes]
      exact induction ends

theorem run?_eq_some_iff {ending : Ending} :
    (∃ ticks, run? code ticks start = some (ending, finish)) ↔
      (∃ count, Steps (Goes code) count start finish) ∧ finish.tick code = ending.tick := by
  constructor
  · rintro ⟨ticks, ended⟩
    rcases run?_cases code ticks start with ⟨_, _, answer⟩ | ⟨count, _, _, steps, ends, answer⟩
    · simp [answer] at ended
    · rw [answer] at ended
      cases ended
      exact ⟨⟨count, steps⟩, ends⟩
  · rintro ⟨⟨count, steps⟩, ends⟩
    exact ⟨count + 1, run?_of_steps steps ends⟩

theorem run?_eq_none_iff :
    (∀ ticks, run? code ticks start = none) ↔
      ∀ count, ∃ finish, Steps (Goes code) count start finish := by
  constructor
  · intro unanswered count
    rcases run?_cases code count start with ⟨finish, steps, _⟩ | ⟨_, _, _, _, _, answer⟩
    · exact ⟨finish, steps⟩
    · rw [unanswered] at answer
      cases answer
  · intro endless ticks
    rcases run?_cases code ticks start with ⟨_, _, answer⟩ | ⟨count, _, _, steps, ends, _⟩
    · exact answer
    · obtain ⟨_, longer⟩ := endless (count + 1)
      have bounded :=
        Steps.le_of_final (goes_deterministic code) steps (final_of_ending ends) longer
      omega

theorem ending_unique {first second : Nat} {left right : Machine} {ending other : Ending}
    (toLeft : Steps (Goes code) first start left) (leftEnds : left.tick code = ending.tick)
    (toRight : Steps (Goes code) second start right) (rightEnds : right.tick code = other.tick) :
    left = right ∧ ending = other := by
  obtain rfl := Steps.final_unique (goes_deterministic code) toLeft (final_of_ending leftEnds)
    toRight (final_of_ending rightEnds)
  exact ⟨rfl, Ending.tick_injective (leftEnds.symm.trans rightEnds)⟩

theorem tick_settle (machine : Machine) {record : Record} {result : Option Int}
    (here : code[machine.offset / Record.width]? = some record)
    (computed : (record.opcode = .clear ∧ result = some 0) ∨
      (record.opcode = .inc ∧ result = Value.succ? (machine.register record.slot)) ∨
      (record.opcode = .dec ∧ result = Value.pred? (machine.register record.slot))) :
    machine.tick code = machine.settle record.slot result := by
  rcases computed with ⟨opcode, rfl⟩ | ⟨opcode, rfl⟩ | ⟨opcode, rfl⟩
  · simp [tick, here, opcode]
  · simp [tick, here, opcode]
  · simp [tick, here, opcode]

theorem goes_past {slot : Slot} {target : UInt32}
    (here : code[machine.offset / Record.width]? = some (.goto slot target))
    (zero : machine.register slot = 0) :
    Goes code machine { machine with offset := machine.offset + Record.width } := by
  simp [Goes, tick, here, Record.goto, zero]

theorem goes_to {slot : Slot} {target : UInt32}
    (here : code[machine.offset / Record.width]? = some (.goto slot target))
    (nonzero : machine.register slot ≠ 0) :
    Goes code machine { machine with offset := target.toNat } := by
  simp [Goes, tick, here, Record.goto, nonzero]

theorem register_set (machine : Machine) {slot : Slot} (other : Slot) (value : Int) (offset : Nat)
    (inside : slot.toNat < machine.registers.size) :
    register ⟨machine.registers.setIfInBounds slot.toNat value, offset⟩ other =
      if slot = other then value else machine.register other := by
  by_cases same : slot = other
  · subst same
    simp [register, inside]
  · have apart : slot.toNat ≠ other.toNat := fun equal => same (UInt16.toNat_inj.1 equal)
    simp [register, same, apart]

theorem register_replicate (count offset : Nat) (slot : Slot) :
    register ⟨Array.replicate count 0, offset⟩ slot = 0 := by
  simp only [register, Array.getD_eq_getD_getElem?, Array.getElem?_replicate]
  split <;> rfl

end Abacus.Bytecode.Machine
