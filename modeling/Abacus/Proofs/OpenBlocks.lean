import Abacus.Proofs.Linking
import Abacus.Proofs.Lowering

/-!
The open blocks before each address of a program that compiles. A jump forward over whole blocks
comes to an address with the blocks that were open where it started. Each open block was opened by a
statement and has been open since; a loop remembers the `while` that opened it and the blocks around
it.
-/

namespace Abacus

def Program.Opens (program : Program) (address : Nat) : Frame → Prop
  | .loop returnTo slot =>
      returnTo = address ∧ ∃ phrase, program.At address phrase (.whileNonzero slot)
  | .chain _ => ∃ phrase slot, program.At address phrase (.ifNonzero slot)

namespace Bytecode.Layout

variable {layout : Layout} {program : Program}

/-- One entry of a search: it ends there, at a wanted keyword with no counted block open, or goes on
with the count of the blocks open above the same ones as before. -/
theorem Compiles.seek_step (compiles : layout.Compiles program) (linked : program.WellLinked)
    {targets : List Keyword} {left index depth found : Nat} {above base : List Frame}
    (sought : program.outline.seek targets (left + 1) index depth = some found)
    (inside : index < program.size)
    (frames : (layout.framesBefore program index).frames = above ++ base)
    (deep : above.length = depth) :
    (index = found ∧ above = [] ∧
      ∃ keyword ∈ targets, program.outline[index]? = some (some keyword)) ∨
      ((above = [] → ∀ keyword ∈ targets, program.outline[index]? ≠ some (some keyword)) ∧
        ∃ counted : List Frame,
          program.outline.seek targets left (index + 1) counted.length = some found ∧
          (layout.framesBefore program (index + 1)).frames = counted ++ base) := by
  subst deep
  rcases compiles.entry_cases inside with ⟨phrase, here⟩ | ⟨phrase, op, here⟩
  · have blank := linked.outline_skipped here
    simp only [Outline.seek, blank, Option.join_some] at sought
    refine .inr ⟨by simp [blank], above, sought, ?_⟩
    rw [(compiles.skipped here).1]
    exact frames
  · have spelled := linked.outline_op here
    obtain ⟨_, after, lowers, next, _⟩ := compiles.lowers here
    simp only [Outline.seek, spelled, Option.join_some] at sought
    by_cases hit : above.length = 0 ∧ op.keyword ∈ targets
    · rw [if_pos hit] at sought
      exact .inl ⟨Option.some.inj sought, List.length_eq_zero_iff.1 hit.1, op.keyword, hit.2,
        spelled⟩
    · rw [if_neg hit] at sought
      refine .inr ⟨?_, ?_⟩
      · rintro rfl keyword wanted same
        rw [spelled, Option.some.injEq, Option.some.injEq] at same
        exact hit ⟨rfl, same ▸ wanted⟩
      · rw [next]
        rcases lowers.frames_cases with ⟨slot, rfl, rfl⟩ | ⟨slot, rfl, rfl⟩ |
          ⟨opens, closes, top, shape⟩ | ⟨opens, closes, rfl⟩
        · exact ⟨.loop index slot :: above, sought, by simp [frames]⟩
        · exact ⟨.chain false :: above, sought, by simp [frames]⟩
        · simp only [opens, closes, Bool.false_eq_true, if_false, if_true] at sought
          cases above with
          | nil => cases sought
          | cons frame above =>
              rw [shape, List.cons_append, List.cons.injEq] at frames
              exact ⟨above, sought, frames.2⟩
        · simp only [opens, closes, Bool.false_eq_true, if_false] at sought
          exact ⟨above, sought, frames⟩

/-- The search for a keyword counts the blocks it enters and leaves; when it ends, the blocks
open are those below the ones counted at its start. -/
theorem Compiles.frames_of_seek (compiles : layout.Compiles program)
    (linked : program.WellLinked) {targets : List Keyword} {left index depth found : Nat}
    {above base : List Frame}
    (sought : program.outline.seek targets left index depth = some found)
    (inside : index + left ≤ program.size)
    (frames : (layout.framesBefore program index).frames = above ++ base)
    (deep : above.length = depth) :
    index ≤ found ∧ found < program.size ∧ (layout.framesBefore program found).frames = base ∧
      ∃ keyword ∈ targets, program.outline[found]? = some (some keyword) := by
  induction left generalizing index depth above with
  | zero => cases sought
  | succ left induction =>
      have bounded : index < program.size := by omega
      rcases compiles.seek_step linked sought bounded frames deep with
        ⟨rfl, rfl, wanted⟩ | ⟨_, counted, onward, next⟩
      · exact ⟨Nat.le_refl _, bounded, frames, wanted⟩
      · obtain ⟨later, rest⟩ := induction onward (by omega) next rfl
        exact ⟨Nat.le_of_succ_le later, rest⟩

theorem Compiles.frames_of_next? (compiles : layout.Compiles program)
    (linked : program.WellLinked) {targets : List Keyword} {start found : Nat}
    (inside : start < program.size)
    (sought : program.outline.next? start targets = some found) :
    start < found ∧ found < program.size ∧
      layout.framesBefore program found = layout.framesBefore program (start + 1) ∧
      ∃ keyword ∈ targets, program.outline[found]? = some (some keyword) := by
  rw [Outline.next?, program.size_outline] at sought
  obtain ⟨later, bounded, frames, keyword⟩ :=
    compiles.frames_of_seek linked sought (by omega) (List.nil_append _).symm rfl
  exact ⟨later, bounded, Stack.ext frames, keyword⟩

theorem Compiles.at_of_next? (compiles : layout.Compiles program) (linked : program.WellLinked)
    {targets : List Keyword} {start found : Nat} (inside : start < program.size)
    (sought : program.outline.next? start targets = some found) :
    ∃ phrase op, program.At found phrase op ∧ op.keyword ∈ targets := by
  obtain ⟨_, bounded, _, keyword, wanted, spelled⟩ :=
    compiles.frames_of_next? linked inside sought
  rcases compiles.entry_cases bounded with ⟨phrase, here⟩ | ⟨phrase, op, here⟩
  · rw [linked.outline_skipped here] at spelled
    cases spelled
  · rw [linked.outline_op here] at spelled
    cases spelled
    exact ⟨phrase, op, here, wanted⟩

/-- The frame that is on top after `opener` is still on the stack before `address`, and so are the
frames below it. -/
structure Stays (layout : Layout) (program : Program) (opener address : Nat) : Prop where
  later : opener < address
  stays : ∀ between, opener < between → between ≤ address →
    (layout.framesBefore program (opener + 1)).frames <:+
      (layout.framesBefore program between).frames

theorem stays_self (layout : Layout) (program : Program) (opener : Nat) :
    layout.Stays program opener (opener + 1) := by
  refine ⟨Nat.lt_succ_self _, ?_⟩
  intro between after bounded
  obtain rfl : between = opener + 1 := by omega
  exact List.suffix_refl _

theorem Stays.trans {opener middle address : Nat} (before : layout.Stays program opener middle)
    (after : ∀ between, middle < between → between ≤ address →
      (layout.framesBefore program (opener + 1)).frames <:+
        (layout.framesBefore program between).frames)
    (order : middle ≤ address) : layout.Stays program opener address := by
  refine ⟨Nat.lt_of_lt_of_le before.later order, ?_⟩
  intro between above below
  rcases Nat.lt_or_ge middle between with past | within
  · exact after between past below
  · exact before.stays between above within

/-- Every open block was opened by a statement and has been open since. -/
theorem Compiles.exists_opener (compiles : layout.Compiles program) {address : Nat} {frame : Frame}
    {below : List Frame} (inside : address ≤ program.size)
    (held : frame :: below <:+ (layout.framesBefore program address).frames) :
    ∃ opener, layout.Stays program opener address ∧
      (layout.framesBefore program (opener + 1)).frames = frame :: below ∧
      program.Opens opener frame := by
  induction address with
  | zero => simp [framesBefore_zero, Stack.empty] at held
  | succ address induction =>
      have earlier : frame :: below <:+ (layout.framesBefore program address).frames →
          ∃ opener, layout.Stays program opener (address + 1) ∧
            (layout.framesBefore program (opener + 1)).frames = frame :: below ∧
            program.Opens opener frame := by
        intro before
        obtain ⟨opener, stays, pushed, opens⟩ := induction (Nat.le_of_lt inside) before
        refine ⟨opener, stays.trans ?_ (Nat.le_succ _), pushed, opens⟩
        intro between above below
        obtain rfl : between = address + 1 := by omega
        rw [pushed]
        exact held
      -- A frame just pushed is the one sought, or that one was there before.
      have pushes : ∀ top : Frame, program.Opens address top →
          (layout.framesBefore program (address + 1)).frames =
            top :: (layout.framesBefore program address).frames →
          ∃ opener, layout.Stays program opener (address + 1) ∧
            (layout.framesBefore program (opener + 1)).frames = frame :: below ∧
            program.Opens opener frame := by
        intro top opens next
        have here := held
        rw [next, List.suffix_cons_iff] at here
        rcases here with same | before
        · obtain ⟨rfl, rfl⟩ := List.cons.inj same
          exact ⟨address, stays_self layout program address, next, opens⟩
        · exact earlier before
      rcases compiles.entry_cases inside with ⟨phrase, here⟩ | ⟨phrase, op, here⟩
      · rw [(compiles.skipped here).1] at held
        exact earlier held
      · obtain ⟨_, after, lowers, next, _⟩ := compiles.lowers here
        rcases lowers.frames_cases with ⟨slot, rfl, rfl⟩ | ⟨slot, rfl, rfl⟩ |
          ⟨_, _, top, shape⟩ | ⟨_, _, rfl⟩
        · exact pushes (.loop address slot) ⟨rfl, phrase, here⟩ (by rw [next]; rfl)
        · exact pushes (.chain false) ⟨phrase, slot, here⟩ (by rw [next]; rfl)
        · apply earlier
          rw [next] at held
          rw [shape]
          exact held.trans (List.suffix_cons _ _)
        · rw [next] at held
          exact earlier held

theorem Compiles.loop_opened (compiles : layout.Compiles program) {address returnTo : Nat}
    {slot : Slot} {below : List Frame} (inside : address ≤ program.size) (above : List Frame)
    (frames : (layout.framesBefore program address).frames =
      above ++ .loop returnTo slot :: below) :
    returnTo < address ∧ (∃ phrase, program.At returnTo phrase (.whileNonzero slot)) ∧
      (layout.framesBefore program returnTo).frames = below := by
  obtain ⟨_, stays, pushed, rfl, phrase, here⟩ :=
    compiles.exists_opener inside (frames ▸ List.suffix_append above _)
  obtain ⟨_, _, lowers, next, _⟩ := compiles.lowers here
  cases lowers
  rw [next, Stack.frames_push] at pushed
  exact ⟨stays.later, ⟨phrase, here⟩, (List.cons.inj pushed).2⟩

end Bytecode.Layout

end Abacus
