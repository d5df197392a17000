import Abacus.Proofs.Nesting

/-!
The faults of compilation. A program with a broken phrase is refused with the fault of the first
one; no fault of compilation is an internal one.
-/

namespace Abacus

namespace Bytecode.Layout

variable {layout : Layout} {program : Program} {address : Nat}

theorem bind_eq_error_iff {α β : Type} {first : Except Fault α} {rest : α → Except Fault β}
    {fault : Fault} :
    first >>= rest = .error fault ↔
      first = .error fault ∨ ∃ value, first = .ok value ∧ rest value = .error fault := by
  cases first <;> simp [bind, Except.bind]

theorem openBlock_eq_error {phrase : Phrase} {frame : Frame} {frames : Stack} {fault : Fault}
    (refused : openBlock phrase frame frames = .error fault) :
    fault.kind = .outOfMemory ∧ (frames.push frame).overfull = true := by
  simp only [openBlock] at refused
  split at refused <;> cases refused
  exact ⟨rfl, ‹_›⟩

theorem alwaysSlot_eq_error {phrase : Phrase} {fault : Fault}
    (refused : layout.alwaysSlot phrase = .error fault) :
    fault.kind = .internal ∧ layout.always? = none := by
  unfold alwaysSlot at refused
  split at refused <;> cases refused
  exact ⟨rfl, ‹_›⟩

theorem kind_findNext {phrase : Phrase} {targets : List Keyword} {fault : Fault}
    (refused : findNext program phrase address targets = .error fault) :
    fault.kind = .ifWithoutEndif := by
  unfold findNext at refused
  split at refused <;> cases refused
  rfl

theorem kind_expectChain {phrase : Phrase} {frames : Stack} {fault : Fault}
    (refused : expectChain phrase frames = .error fault) : fault.kind = .elseWithoutIf := by
  unfold expectChain at refused
  split at refused <;> cases refused
  rfl

/-- Why a statement is refused: it opens one block too many, there is no slot for its sure jumps, or
its keyword does not fit the blocks around it. -/
theorem refusal_cases {phrase : Phrase} {frames : Stack} {op : Op} {fault : Fault}
    (refused : layout.lower program address phrase frames op = .error fault) :
    (fault.kind = .outOfMemory ∧ op.keyword.opensBlock = true ∧
        ∃ frame, (frames.push frame).overfull = true) ∨
      (fault.kind = .internal ∧ op.keyword ∈ Keyword.branchStarts ∧ layout.always? = none) ∨
      fault.kind ∈ [.endWithoutWhile, .elseWithoutIf, .ifWithoutEndif] := by
  have deep : ∀ {frame}, op.keyword.opensBlock = true →
      openBlock phrase frame frames = .error fault →
      fault.kind = .outOfMemory ∧ op.keyword.opensBlock = true ∧
        ∃ frame, (frames.push frame).overfull = true :=
    fun opens full => ⟨(openBlock_eq_error full).1, opens, _, (openBlock_eq_error full).2⟩
  have unsure : op.keyword ∈ Keyword.branchStarts → layout.alwaysSlot phrase = .error fault →
      fault.kind = .internal ∧ op.keyword ∈ Keyword.branchStarts ∧ layout.always? = none :=
    fun start missing => ⟨(alwaysSlot_eq_error missing).1, start, (alwaysSlot_eq_error missing).2⟩
  have lost : ∀ {targets}, findNext program phrase address targets = .error fault →
      fault.kind ∈ [.endWithoutWhile, .elseWithoutIf, .ifWithoutEndif] :=
    fun unfound => by simp [kind_findNext unfound]
  have stray : expectChain phrase frames = .error fault →
      fault.kind ∈ [.endWithoutWhile, .elseWithoutIf, .ifWithoutEndif] :=
    fun outside => by simp [kind_expectChain outside]
  cases op with
  | clear slot => cases refused
  | incr slot => cases refused
  | decr slot => cases refused
  | whileNonzero slot =>
      rcases bind_eq_error_iff.1 refused with full | ⟨_, _, rest⟩
      · exact .inl (deep rfl full)
      · cases rest
  | endWhile =>
      simp only [lower] at refused
      split at refused <;> cases refused
      exact .inr (.inr (by simp [Phrase.fault]))
  | ifNonzero slot =>
      rcases bind_eq_error_iff.1 refused with full | ⟨_, _, rest⟩
      · exact .inl (deep rfl full)
      rcases bind_eq_error_iff.1 rest with missing | ⟨_, _, rest⟩
      · exact .inr (.inl (unsure (by simp [Statement.keyword, Keyword.branchStarts]) missing))
      rcases bind_eq_error_iff.1 rest with unfound | ⟨_, _, rest⟩
      · exact .inr (.inr (lost unfound))
      · cases rest
  | elifNonzero slot =>
      rcases bind_eq_error_iff.1 refused with outside | ⟨_, _, rest⟩
      · exact .inr (.inr (stray outside))
      rcases bind_eq_error_iff.1 rest with missing | ⟨_, _, rest⟩
      · exact .inr (.inl (unsure (by simp [Statement.keyword, Keyword.branchStarts]) missing))
      rcases bind_eq_error_iff.1 rest with unfound | ⟨_, _, rest⟩
      · exact .inr (.inr (lost unfound))
      rcases bind_eq_error_iff.1 rest with unfound | ⟨_, _, rest⟩
      · exact .inr (.inr (lost unfound))
      · cases rest
  | elseBranch =>
      rcases bind_eq_error_iff.1 refused with outside | ⟨_, _, rest⟩
      · exact .inr (.inr (stray outside))
      rcases bind_eq_error_iff.1 rest with missing | ⟨_, _, rest⟩
      · exact .inr (.inl (unsure (by simp [Statement.keyword, Keyword.branchStarts]) missing))
      rcases bind_eq_error_iff.1 rest with unfound | ⟨_, _, rest⟩
      · exact .inr (.inr (lost unfound))
      · cases rest
  | endIf =>
      simp only [lower] at refused
      split at refused <;> cases refused
      exact .inr (.inr (by simp [Phrase.fault]))

/-- With a slot for sure jumps no statement has an internal fault. -/
theorem kind_lower {phrase : Phrase} {frames : Stack} {op : Op} {fault : Fault}
    (sure : op.keyword ∈ Keyword.branchStarts → ∃ always, layout.always? = some always)
    (refused : layout.lower program address phrase frames op = .error fault) :
    fault.kind ≠ .internal := by
  intro internal
  rcases refusal_cases refused with ⟨kind, _⟩ | ⟨_, start, missing⟩ | kind
  · rw [internal] at kind
    cases kind
  · obtain ⟨always, found⟩ := sure start
    rw [missing] at found
    cases found
  · simp [internal] at kind

/-- A fault of the compiler is that of a statement to which it comes without one. -/
theorem exists_refused {fault : Fault} (inside : address ≤ program.size)
    (met : (layout.draftBefore program address).fault? = some fault) :
    ∃ place phrase op, program.At place phrase op ∧
      (layout.draftBefore program place).fault? = none ∧
      layout.lower program place phrase (layout.framesBefore program place) op = .error fault := by
  induction address with
  | zero => cases met
  | succ address induction =>
      have bounded := Nat.le_of_lt inside
      cases earlier : (layout.draftBefore program address).fault? with
      | some other =>
          have next := draftBefore_add layout bounded 1
          rw [earlier] at next
          rw [next] at met
          exact induction bounded met
      | none =>
          obtain ⟨⟨phrase, linked⟩, here⟩ : ∃ entry, program.entries[address]? = some entry :=
            ⟨_, Array.getElem?_eq_getElem inside⟩
          rw [draftBefore_next here earlier] at met
          cases linked with
          | skipped | broken => simp [lowerFrom, Linked.op?, earlier] at met
          | op op =>
              simp only [lowerFrom, Linked.op?] at met
              cases lowered : layout.lower program address phrase
                  (layout.draftBefore program address).frames op with
              | ok result =>
                  rw [lowered] at met
                  cases met
              | error other =>
                  rw [lowered] at met
                  cases met
                  exact ⟨address, phrase, op, here, earlier, lowered⟩

end Bytecode.Layout

namespace Program

open Bytecode

variable {program : Program}

theorem exists_of_firstFault? {fault : Fault} (found : program.firstFault? = some fault) :
    ∃ phrase, ⟨phrase, .broken fault⟩ ∈ program.entries := by
  obtain ⟨entry, member, broken⟩ := Array.exists_of_findSome?_eq_some found
  obtain ⟨phrase, linked⟩ := entry
  cases linked with
  | skipped => cases broken
  | op op => cases broken
  | broken other =>
      cases broken
      exact ⟨phrase, member⟩

theorem kind_firstFault? (linked : program.WellLinked) {fault : Fault}
    (found : program.firstFault? = some fault) :
    fault.kind = .badStatement ∨ fault.kind = .overflow := by
  obtain ⟨phrase, member⟩ := exists_of_firstFault? found
  obtain ⟨_, here⟩ := Array.mem_iff_getElem?.1 member
  exact (linked.recorded here).2

theorem compile_of_firstFault? {fault : Fault} (found : program.firstFault? = some fault) :
    program.compile = .error fault := by
  have refused : Layout.ofProgram program = .error fault := by rw [Layout.ofProgram_eq, found]
  rw [compile, refused]

theorem kind_ofProgram (linked : program.WellLinked) {fault : Fault}
    (refused : Layout.ofProgram program = .error fault) :
    fault.kind = .badStatement ∨ fault.kind = .overflow := by
  rw [Layout.ofProgram_eq] at refused
  cases found : program.firstFault? with
  | some first =>
      rw [found] at refused
      cases refused
      exact kind_firstFault? linked found
  | none =>
      simp only [found] at refused
      split at refused
      · cases refused
        exact .inr rfl
      · split at refused <;> cases refused
        exact .inr rfl

theorem kind_compile (linked : program.WellLinked) {fault : Fault}
    (refused : program.compile = .error fault) : fault.kind ≠ .internal := by
  rcases compile_cases linked with ⟨other, unlaid, answer⟩ | ⟨layout, other, laid, met, answer⟩ |
    ⟨_, _, _, answer⟩
  · rw [answer] at refused
    cases refused
    rcases kind_ofProgram linked unlaid with kind | kind <;> simp [kind]
  · rw [answer] at refused
    cases refused
    rw [← Layout.draftBefore_size] at met
    obtain ⟨place, phrase, op, here, _, lowered⟩ := Layout.exists_refused (Nat.le_refl _) met
    exact Layout.kind_lower (Layout.exists_always laid here) lowered
  · rw [answer] at refused
    cases refused

end Program

end Abacus
