/-!
Counted steps of a relation. Where the relation is a function, a run that has come to an end
has one length and one end.
-/

namespace Abacus

inductive Steps {α : Type} (next : α → α → Prop) : Nat → α → α → Prop
  | none (start : α) : Steps next 0 start start
  | cons {count : Nat} {start middle finish : α} (first : next start middle)
      (rest : Steps next count middle finish) : Steps next (count + 1) start finish

def Final {α : Type} (next : α → α → Prop) (state : α) : Prop := ∀ after, ¬ next state after

def Deterministic {α : Type} (next : α → α → Prop) : Prop :=
  ∀ start left right, next start left → next start right → left = right

namespace Steps

variable {α : Type} {next : α → α → Prop}

theorem single {start finish : α} (step : next start finish) : Steps next 1 start finish :=
  .cons step (.none finish)

theorem append {first second : Nat} {start middle finish : α}
    (before : Steps next first start middle) (after : Steps next second middle finish) :
    Steps next (first + second) start finish := by
  induction before with
  | none => simpa using after
  | cons step _ induction =>
      rw [Nat.add_right_comm]
      exact .cons step (induction after)

theorem split {first second : Nat} {start finish : α}
    (steps : Steps next (first + second) start finish) :
    ∃ middle, Steps next first start middle ∧ Steps next second middle finish := by
  induction first generalizing start with
  | zero => exact ⟨start, .none start, by simpa using steps⟩
  | succ first induction =>
      rw [Nat.add_right_comm] at steps
      cases steps with
      | cons step rest =>
          obtain ⟨middle, before, after⟩ := induction rest
          exact ⟨middle, .cons step before, after⟩

theorem shorten {few many : Nat} {start finish : α} (steps : Steps next many start finish)
    (fewer : few ≤ many) : ∃ middle, Steps next few start middle := by
  obtain ⟨rest, rfl⟩ := Nat.exists_eq_add_of_le fewer
  obtain ⟨middle, before, _⟩ := steps.split
  exact ⟨middle, before⟩

theorem deterministic (function : Deterministic next) {count : Nat} {start left right : α}
    (toLeft : Steps next count start left) (toRight : Steps next count start right) :
    left = right := by
  induction toLeft with
  | none =>
      cases toRight
      rfl
  | cons step _ induction =>
      cases toRight with
      | cons other rest =>
          obtain rfl := function _ _ _ step other
          exact induction rest

theorem le_of_final (function : Deterministic next) {short long : Nat} {start finish other : α}
    (ended : Steps next short start finish) (final : Final next finish)
    (running : Steps next long start other) : long ≤ short := by
  apply Nat.le_of_not_lt
  intro longer
  obtain ⟨more, rfl⟩ := Nat.exists_eq_add_of_lt longer
  rw [Nat.add_assoc] at running
  obtain ⟨middle, before, after⟩ := running.split
  obtain rfl := deterministic function before ended
  cases after with
  | cons step _ => exact final _ step

/-- A run that has come to an end goes on to it from every state it passes. -/
theorem rest_of_final (function : Deterministic next) {whole front : Nat}
    {start middle finish : α} (ended : Steps next whole start finish) (final : Final next finish)
    (running : Steps next front start middle) :
    ∃ rest, whole = front + rest ∧ Steps next rest middle finish := by
  obtain ⟨rest, rfl⟩ := Nat.exists_eq_add_of_le (le_of_final function ended final running)
  obtain ⟨other, before, after⟩ := ended.split
  obtain rfl := deterministic function before running
  exact ⟨rest, rfl, after⟩

theorem final_unique (function : Deterministic next) {first second : Nat} {start left right : α}
    (toLeft : Steps next first start left) (leftFinal : Final next left)
    (toRight : Steps next second start right) (rightFinal : Final next right) : left = right := by
  have below := le_of_final function toLeft leftFinal toRight
  have above := le_of_final function toRight rightFinal toLeft
  obtain rfl := Nat.le_antisymm above below
  exact deterministic function toLeft toRight

end Steps

end Abacus
