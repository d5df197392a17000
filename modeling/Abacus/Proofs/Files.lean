import Abacus.Shell.Disk

/-!
Laws of the disk. A file can be made under a name if the name leads to a place where there is no
directory. Main statements: what was written reads back under its name, nothing is changed at any
other place, and every name that led somewhere still leads there.
-/

namespace Abacus.Shell.Disk

variable {disk : Disk} {place other : Path} {node : Node} {name : String} {bytes : List UInt8}

theorem lookup_filter_ne (apart : other ≠ place) (nodes : List (Path × Node)) :
    (nodes.filter (·.1 != place)).lookup other = nodes.lookup other := by
  induction nodes with
  | nil => rfl
  | cons entry rest induction =>
      obtain ⟨path, node⟩ := entry
      by_cases same : path = place
      · subst same
        have differ : (other == path) = false := by simpa using apart
        simp [List.lookup_cons, differ, induction]
      · rw [List.filter_cons_of_pos (by simpa using same), List.lookup_cons, List.lookup_cons,
          induction]

theorem node?_put_of_ne (apart : other ≠ place) :
    (disk.put place node).node? other = disk.node? other := by
  have differ : (other == place) = false := by simpa using apart
  simp [node?, put, List.lookup_cons, differ, lookup_filter_ne apart]

/-- What is put at a place is there, unless the working directory is. -/
theorem node?_put_self (free : disk.node? place ≠ some .directory) :
    (disk.put place node).node? place = some node := by
  have outside : ¬ place.isPrefixOf disk.home = true := by
    intro inside
    simp [node?, inside] at free
  simp [node?, put, outside]

theorem follow_eq_ok_iff {steps : List String} {next : Path} :
    disk.follow name steps = .ok next ↔
      ('\x00' ∉ name.toList ∧ name ≠ "" ∧ name.utf8ByteSize ≤ 4095) ∧
        steps.foldlM disk.enter (if name.toList.head? = some '/' then [] else disk.home) =
          .ok next := by
  by_cases nul : '\x00' ∈ name.toList
  · simp [follow, nul]
  · by_cases empty : name = ""
    · simp [follow, empty]
    · by_cases long : 4095 < name.utf8ByteSize
      · simp [follow, nul, empty, long, Nat.not_le.2 long]
      · simp [follow, nul, empty, long, Nat.le_of_not_lt long]

section Follow

variable (free : disk.node? place ≠ some .directory)
include free

theorem enter_put {path next : Path} (led : disk.enter path name = .ok next) :
    (disk.put place node).enter path name = .ok next := by
  have apart : path ≠ place := by
    rintro rfl
    simp only [enter] at led
    split at led
    · cases led
    · cases led
    · rename_i held
      exact free held
  simpa only [enter, node?_put_of_ne apart] using led

theorem foldlM_enter_put {steps : List String} {start next : Path}
    (led : steps.foldlM disk.enter start = .ok next) :
    steps.foldlM (disk.put place node).enter start = .ok next := by
  induction steps generalizing start with
  | nil => exact led
  | cons step steps induction =>
      rw [List.foldlM_cons] at led ⊢
      cases first : disk.enter start step with
      | error refusal =>
          rw [first] at led
          cases led
      | ok middle =>
          rw [first] at led
          rw [enter_put free first]
          exact induction led

theorem follow_put {steps : List String} {next : Path}
    (led : disk.follow name steps = .ok next) :
    (disk.put place node).follow name steps = .ok next := by
  rw [follow_eq_ok_iff] at led ⊢
  exact ⟨led.1, foldlM_enter_put free led.2⟩

end Follow

/-- A file can be made under this name, and stands at this place then. -/
structure Creates (disk : Disk) (name : String) (place : Path) : Prop where
  leads : disk.follow name (stepsToWrite name) = .ok place
  free : disk.node? place ≠ some .directory

theorem Creates.write (creates : disk.Creates name place) (bytes : List UInt8) :
    disk.write name bytes = .ok (disk.put place (.file bytes)) := by
  simp only [Disk.write, creates.leads]
  split
  · rename_i held
    exact absurd held creates.free
  · rfl

theorem Creates.not_endsInSlash (creates : disk.Creates name place) :
    endsInSlash name = false := by
  cases slash : endsInSlash name with
  | false => rfl
  | true =>
      obtain ⟨_, led⟩ := follow_eq_ok_iff.1 creates.leads
      rw [stepsToWrite, if_pos slash, List.foldlM_append] at led
      simp only [List.foldlM_cons, List.foldlM_nil, bind_pure] at led
      -- The last step stays where it is, which it does in directories only.
      cases before : (steps name).dropLast.foldlM disk.enter
          (if name.toList.head? = some '/' then [] else disk.home) with
      | error refusal =>
          rw [before] at led
          cases led
      | ok path =>
          have last : disk.enter path "." = .ok place := by
            rw [before] at led
            exact led
          simp only [enter] at last
          split at last
          · cases last
          · cases last
          · rename_i held
            cases last
            exact absurd held creates.free

theorem Creates.leads_steps (creates : disk.Creates name place) :
    disk.follow name (steps name) = .ok place := by
  have led := creates.leads
  rwa [stepsToWrite, creates.not_endsInSlash] at led

theorem Creates.read_put (creates : disk.Creates name place) :
    (disk.put place (.file bytes)).read name = .ok bytes := by
  simp [read, follow_put creates.free creates.leads_steps, node?_put_self creates.free,
    creates.not_endsInSlash]

/-- A file that could be read is the one now written, or reads as before. -/
theorem Creates.read_put_other (creates : disk.Creates name place) {file : String}
    {held : List UInt8} (before : disk.read file = .ok held) :
    (disk.put place (.file bytes)).read file = .ok bytes ∨
      (disk.put place (.file bytes)).read file = .ok held := by
  simp only [read] at before
  split at before
  · cases before
  · rename_i path led
    simp only [read, follow_put creates.free led]
    split at before
    · cases before
    · cases before
    · rename_i old found
      split at before
      · cases before
      · rename_i plain
        cases before
        by_cases same : path = place
        · subst same
          left
          simp [node?_put_self creates.free, plain]
        · right
          simp [node?_put_of_ne same, found, plain]

end Abacus.Shell.Disk
