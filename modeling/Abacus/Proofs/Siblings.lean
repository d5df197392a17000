import Abacus.Proofs.Seeking

/-!
What the search for a keyword means. A search stands at a depth below the level it started on, and
each keyword takes it one level down, one level up or along. Main statement: the search finds the
first phrase with a wanted keyword such that the keywords passed on the way close every block they
open and no other, and finds nothing exactly when there is no such phrase.
-/

namespace Abacus

namespace Keyword

def openers : List Keyword := [.ifNonzero, .whileNonzero]

def closers : List Keyword := [.endWhile, .endIf]

def opened (word : List Keyword) : Nat := word.countP (· ∈ openers)

def closed (word : List Keyword) : Nat := word.countP (· ∈ closers)

/-- As many blocks are closed as are opened, and none before it was opened. -/
structure Whole (word : List Keyword) : Prop where
  even : opened word = closed word
  inside : ∀ front, front <+: word → closed front ≤ opened front

/-- From a depth, the keywords lead up to the level of depth zero, and on the way never above it. -/
structure Surfaces (depth : Nat) (word : List Keyword) : Prop where
  level : depth + opened word = closed word
  inside : ∀ front, front <+: word → closed front ≤ depth + opened front

theorem surfaces_zero_iff {word : List Keyword} : Surfaces 0 word ↔ Whole word := by
  constructor
  · intro surfaces
    refine ⟨by simpa using surfaces.level, ?_⟩
    intro front start
    simpa using surfaces.inside front start
  · intro whole
    refine ⟨by simpa using whole.even, ?_⟩
    intro front start
    simpa using whole.inside front start

theorem surfaces_nil_iff {depth : Nat} : Surfaces depth [] ↔ depth = 0 := by
  constructor
  · intro surfaces
    exact surfaces.level
  · intro level
    refine ⟨level, ?_⟩
    intro front start
    rw [List.prefix_nil.1 start]
    exact Nat.zero_le _

/-- The depth behind a keyword. There is none behind the close of a block around the search. -/
def depthAfter (depth : Nat) (keyword : Keyword) : Option Nat :=
  if keyword.opensBlock then some (depth + 1)
  else if keyword.closesBlock then
    match depth with
    | 0 => none
    | outer + 1 => some outer
  else some depth

theorem depthAfter_eq_some_iff {depth next : Nat} {keyword : Keyword} :
    depthAfter depth keyword = some next ↔
      next + closed [keyword] = depth + opened [keyword] := by
  unfold depthAfter
  cases keyword <;> cases depth <;>
    simp [opensBlock, closesBlock, opened, closed, openers, closers] <;> omega

theorem opened_cons (keyword : Keyword) (word : List Keyword) :
    opened (keyword :: word) = opened [keyword] + opened word := by
  have split : keyword :: word = [keyword] ++ word := rfl
  rw [split]
  exact List.countP_append

theorem closed_cons (keyword : Keyword) (word : List Keyword) :
    closed (keyword :: word) = closed [keyword] + closed word := by
  have split : keyword :: word = [keyword] ++ word := rfl
  rw [split]
  exact List.countP_append

theorem surfaces_cons_iff {depth : Nat} {keyword : Keyword} {word : List Keyword} :
    Surfaces depth (keyword :: word) ↔
      ∃ next, depthAfter depth keyword = some next ∧ Surfaces next word := by
  constructor
  · intro surfaces
    have first := surfaces.inside [keyword] (List.prefix_append [keyword] word)
    have level := surfaces.level
    rw [opened_cons, closed_cons] at level
    refine ⟨depth + opened [keyword] - closed [keyword],
      depthAfter_eq_some_iff.2 (Nat.sub_add_cancel first), by omega, ?_⟩
    intro front start
    have longer := surfaces.inside (keyword :: front) (List.cons_prefix_cons.2 ⟨rfl, start⟩)
    rw [opened_cons, closed_cons] at longer
    omega
  · intro dived
    obtain ⟨next, after, surfaces⟩ := dived
    have level := surfaces.level
    rw [depthAfter_eq_some_iff] at after
    refine ⟨by rw [opened_cons, closed_cons]; omega, ?_⟩
    intro front start
    rcases List.prefix_cons_iff.1 start with rfl | ⟨rest, rfl, onward⟩
    · exact Nat.zero_le _
    · have shorter := surfaces.inside rest onward
      rw [opened_cons, closed_cons]
      omega

end Keyword

namespace Outline

open Keyword

variable {outline : Outline} {targets : List Keyword} {left index depth found : Nat}

def stretch (outline : Outline) (index found : Nat) : List Keyword :=
  ((outline.toList.take found).drop index).filterMap id

theorem stretch_self (outline : Outline) (index : Nat) : outline.stretch index index = [] := by
  have short : (outline.toList.take index).length ≤ index := List.length_take_le _ _
  unfold stretch
  rw [List.drop_of_length_le short]
  rfl

theorem stretch_cons {entry : Option Keyword} (here : outline[index]? = some entry)
    (later : index < found) :
    outline.stretch index found = entry.toList ++ outline.stretch (index + 1) found := by
  rw [← Array.getElem?_toList] at here
  have inside : (outline.toList.take found)[index]? = some entry := by
    rw [List.getElem?_take_of_lt later, here]
  obtain ⟨bounded, same⟩ := List.getElem?_eq_some_iff.1 inside
  unfold stretch
  rw [List.drop_eq_getElem_cons bounded, same]
  cases entry <;> rfl

/-- From an entry on, at a depth, an entry with a wanted keyword that is on the level of depth
zero. -/
structure Reaches (outline : Outline) (targets : List Keyword) (index depth found : Nat) :
    Prop where
  later : index ≤ found
  wanted : ∃ keyword ∈ targets, outline[found]?.join = some keyword
  surfaces : Surfaces depth (outline.stretch index found)

theorem reaches_self_iff :
    outline.Reaches targets index depth index ↔
      depth = 0 ∧ ∃ keyword ∈ targets, outline[index]?.join = some keyword := by
  constructor
  · intro reaches
    have surfaces := reaches.surfaces
    rw [stretch_self, surfaces_nil_iff] at surfaces
    exact ⟨surfaces, reaches.wanted⟩
  · intro held
    obtain ⟨level, wanted⟩ := held
    refine ⟨Nat.le_refl _, wanted, ?_⟩
    rw [stretch_self, surfaces_nil_iff]
    exact level

/-- What can be reached elsewhere is reached from the next entry on. -/
theorem reaches_iff_of_ne {entry : Option Keyword} (here : outline[index]? = some entry)
    (apart : ¬ outline.Reaches targets index depth index) :
    outline.Reaches targets index depth found ↔
      index < found ∧ (∃ keyword ∈ targets, outline[found]?.join = some keyword) ∧
        Surfaces depth (entry.toList ++ outline.stretch (index + 1) found) := by
  constructor
  · intro reaches
    have later : index < found := by
      apply Nat.lt_of_le_of_ne reaches.later
      rintro rfl
      exact apart reaches
    rw [← stretch_cons here later]
    exact ⟨later, reaches.wanted, reaches.surfaces⟩
  · intro held
    obtain ⟨later, wanted, surfaces⟩ := held
    rw [← stretch_cons here later] at surfaces
    exact ⟨Nat.le_of_lt later, wanted, surfaces⟩

theorem reaches_blank_iff (here : outline[index]? = some none) :
    outline.Reaches targets index depth found ↔
      outline.Reaches targets (index + 1) depth found := by
  have apart : ¬ outline.Reaches targets index depth index := by
    intro reaches
    obtain ⟨keyword, _, present⟩ := reaches.wanted
    rw [here] at present
    cases present
  rw [reaches_iff_of_ne here apart]
  constructor
  · intro held
    exact ⟨held.1, held.2.1, held.2.2⟩
  · intro reaches
    exact ⟨reaches.later, reaches.wanted, reaches.surfaces⟩

theorem reaches_keyword_iff {keyword : Keyword} (here : outline[index]? = some (some keyword))
    (unwanted : ¬ (depth = 0 ∧ keyword ∈ targets)) :
    outline.Reaches targets index depth found ↔
      ∃ next, depthAfter depth keyword = some next ∧
        outline.Reaches targets (index + 1) next found := by
  have apart : ¬ outline.Reaches targets index depth index := by
    rw [reaches_self_iff, here]
    rintro ⟨level, other, wanted, same⟩
    cases same
    exact unwanted ⟨level, wanted⟩
  rw [reaches_iff_of_ne here apart, Option.toList_some, List.singleton_append, surfaces_cons_iff]
  constructor
  · intro held
    obtain ⟨later, wanted, next, after, surfaces⟩ := held
    exact ⟨next, after, later, wanted, surfaces⟩
  · intro held
    obtain ⟨next, after, reaches⟩ := held
    exact ⟨reaches.later, reaches.wanted, next, after, reaches.surfaces⟩

theorem seek_keyword {keyword : Keyword} (here : outline[index]?.join = some keyword)
    (unwanted : ¬ (depth = 0 ∧ keyword ∈ targets)) :
    outline.seek targets (left + 1) index depth =
      (depthAfter depth keyword).bind (outline.seek targets left (index + 1)) := by
  unfold depthAfter
  cases opens : keyword.opensBlock with
  | true =>
      rw [seek_opening here unwanted opens]
      rfl
  | false =>
      cases closes : keyword.closesBlock with
      | true =>
          cases depth with
          | zero =>
              have stray : keyword ∉ targets := fun wanted => unwanted ⟨rfl, wanted⟩
              rw [seek_stray here stray opens closes]
              rfl
          | succ depth =>
              rw [seek_closing here opens closes]
              rfl
      | false =>
          rw [seek_plain here unwanted opens closes]
          rfl

def IsFirst (holds : Nat → Prop) : Option Nat → Prop
  | some first => holds first ∧ ∀ other, holds other → first ≤ other
  | none => ∀ other, ¬ holds other

theorem IsFirst.congr {holds others : Nat → Prop} {answer : Option Nat}
    (first : IsFirst others answer) (same : ∀ number, holds number ↔ others number) :
    IsFirst holds answer := by
  have equal : holds = others := by
    funext number
    exact propext (same number)
  rwa [equal]

theorem IsFirst.eq_some_iff {holds : Nat → Prop} {answer : Option Nat}
    (first : IsFirst holds answer) {number : Nat} :
    answer = some number ↔ holds number ∧ ∀ other, holds other → number ≤ other := by
  constructor
  · rintro rfl
    exact first
  · intro least
    cases answer with
    | none => exact absurd least.1 (first number)
    | some given =>
        have below := first.2 number least.1
        have above := least.2 given first.1
        rw [Nat.le_antisymm below above]

theorem IsFirst.eq_none_iff {holds : Nat → Prop} {answer : Option Nat}
    (first : IsFirst holds answer) : answer = none ↔ ∀ number, ¬ holds number := by
  constructor
  · rintro rfl
    exact first
  · intro never
    cases answer with
    | none => rfl
    | some given => exact absurd first.1 (never given)

/-- A search to the end of the outline gives the first entry that can be reached. -/
theorem isFirst_seek (whole : index + left = outline.size) :
    IsFirst (outline.Reaches targets index depth) (outline.seek targets left index depth) := by
  induction left generalizing index depth with
  | zero =>
      intro found reaches
      obtain ⟨keyword, _, present⟩ := reaches.wanted
      have past : outline.size ≤ found := by
        have later := reaches.later
        omega
      rw [Array.getElem?_eq_none past] at present
      cases present
  | succ left induction =>
      have onward : index + 1 + left = outline.size := by omega
      have inside : index < outline.size := by omega
      have here := Array.getElem?_eq_getElem inside
      cases entry : outline[index] with
      | none =>
          rw [entry] at here
          rw [seek_blank (by rw [here]; rfl)]
          apply (induction onward).congr
          intro found
          exact reaches_blank_iff here
      | some keyword =>
          rw [entry] at here
          have present : outline[index]?.join = some keyword := by rw [here]; rfl
          by_cases hit : depth = 0 ∧ keyword ∈ targets
          · obtain ⟨rfl, wanted⟩ := hit
            rw [seek_target present wanted]
            refine ⟨reaches_self_iff.2 ⟨rfl, keyword, wanted, present⟩, ?_⟩
            intro found reaches
            exact reaches.later
          · rw [seek_keyword present hit]
            -- Behind a close of the block around the search nothing is reached.
            cases after : depthAfter depth keyword with
            | none =>
                intro found reaches
                obtain ⟨next, same, _⟩ := (reaches_keyword_iff here hit).1 reaches
                rw [after] at same
                cases same
            | some next =>
                apply (induction onward).congr
                intro found
                rw [reaches_keyword_iff here hit, after]
                simp

end Outline

namespace Phrase

def keywordsBetween (phrases : Array Phrase) (start index : Nat) : List Keyword :=
  ((phrases.toList.take index).drop (start + 1)).filterMap keyword?

/-- A later phrase with a wanted keyword, in the block of the phrase at `start`: all blocks that
are opened in between are closed in between. -/
structure IsSibling (phrases : Array Phrase) (targets : List Keyword) (start index : Nat) :
    Prop where
  later : start < index
  wanted : ∃ phrase, phrases[index]? = some phrase ∧
    ∃ keyword ∈ targets, phrase.keyword? = some keyword
  whole : Keyword.Whole (keywordsBetween phrases start index)

end Phrase

namespace Outline

variable {phrases : Array Phrase} {targets : List Keyword} {start index : Nat}

theorem stretch_ofPhrases (phrases : Array Phrase) (start index : Nat) :
    (ofPhrases phrases).stretch (start + 1) index = Phrase.keywordsBetween phrases start index := by
  unfold stretch ofPhrases Phrase.keywordsBetween
  rw [Array.toList_map, ← List.map_take, ← List.map_drop, List.filterMap_map]
  rfl

theorem reaches_ofPhrases_iff :
    (ofPhrases phrases).Reaches targets (start + 1) 0 index ↔
      Phrase.IsSibling phrases targets start index := by
  have present : ∀ keyword, (ofPhrases phrases)[index]?.join = some keyword ↔
      ∃ phrase, phrases[index]? = some phrase ∧ phrase.keyword? = some keyword := by
    intro keyword
    unfold ofPhrases
    rw [Array.getElem?_map]
    cases phrases[index]? <;> simp
  constructor
  · intro reaches
    obtain ⟨keyword, member, found⟩ := reaches.wanted
    obtain ⟨phrase, here, spelled⟩ := (present keyword).1 found
    refine ⟨reaches.later, ⟨phrase, here, keyword, member, spelled⟩, ?_⟩
    rw [← stretch_ofPhrases, ← Keyword.surfaces_zero_iff]
    exact reaches.surfaces
  · intro sibling
    obtain ⟨phrase, here, keyword, member, spelled⟩ := sibling.wanted
    refine ⟨sibling.later, ⟨keyword, member, (present keyword).2 ⟨phrase, here, spelled⟩⟩, ?_⟩
    rw [stretch_ofPhrases, Keyword.surfaces_zero_iff]
    exact sibling.whole

theorem isFirst_next? (phrases : Array Phrase) (start : Nat) (targets : List Keyword) :
    IsFirst (Phrase.IsSibling phrases targets start)
      ((ofPhrases phrases).next? start targets) := by
  have same : ∀ index, Phrase.IsSibling phrases targets start index ↔
      (ofPhrases phrases).Reaches targets (start + 1) 0 index := fun _ =>
    reaches_ofPhrases_iff.symm
  by_cases inside : start + 1 ≤ (ofPhrases phrases).size
  · have whole : start + 1 + ((ofPhrases phrases).size - (start + 1)) =
        (ofPhrases phrases).size := by omega
    exact (isFirst_seek whole).congr same
  · -- Past the end there is nothing to look at, and no phrase to be found.
    have nothing : (ofPhrases phrases).size - (start + 1) = 0 := by omega
    unfold next?
    rw [nothing]
    intro index sibling
    obtain ⟨phrase, here, _⟩ := sibling.wanted
    have bounded := (Array.getElem?_eq_some_iff.1 here).1
    have later := sibling.later
    unfold ofPhrases at inside
    rw [Array.size_map] at inside
    omega

/-- The search finds the first phrase after `start` that has a wanted keyword and stands in the
block of `start`, and nothing exactly if there is none. -/
theorem search_finds_first_sibling (phrases : Array Phrase) (start : Nat)
    (targets : List Keyword) :
    (∀ index, (ofPhrases phrases).next? start targets = some index ↔
        Phrase.IsSibling phrases targets start index ∧
          ∀ other, Phrase.IsSibling phrases targets start other → index ≤ other) ∧
      ((ofPhrases phrases).next? start targets = none ↔
        ∀ index, ¬ Phrase.IsSibling phrases targets start index) := by
  have first := isFirst_next? phrases start targets
  constructor
  · intro index
    exact first.eq_some_iff
  · exact first.eq_none_iff

example : (ofPhrases (#["if a", "while b", "if c", "else", "endif", "end", "else", "endif"].map
    (Phrase.mk 1))).next? 0 Keyword.branchEnds = some 6 := by
  decide +kernel

end Outline

end Abacus
