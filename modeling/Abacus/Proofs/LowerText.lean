import Mathlib.Data.List.DropRight
import Abacus.Proofs.CaseForms

/-!
Lower-casing whole texts. A capital sigma looks at its neighbours, but never past a blank, so that
a text can be lowered piece by piece between its blanks. Main statements: lowering what is lowered
changes nothing; the words of a lowered text are its words, lowered one by one; trimming and
lowering commute; and the case of ASCII letters is gone after lowering.
-/

namespace Abacus.Text

section Plain

variable {before text : List Char}

theorem lowerFrom_of_plain (plain : ∀ c ∈ text, isCapital c = false) (before : List Char) :
    lowerFrom before text = text := by
  induction text generalizing before with
  | nil => rfl
  | cons c after induction =>
      have here := (lowersTo_lowerAt before c after).eq_self (plain c List.mem_cons_self)
      have rest := induction (fun d later => plain d (List.mem_cons_of_mem c later)) (c :: before)
      rw [lowerFrom, here, rest, List.singleton_append]

/-- Every character of a lowered text comes from one of the text. -/
theorem exists_of_mem_lowerFrom {d : Char} (member : d ∈ lowerFrom before text) :
    ∃ c ∈ text, ∃ form, LowersTo c form ∧ d ∈ form := by
  induction text generalizing before with
  | nil => cases member
  | cons c after induction =>
      rw [lowerFrom, List.mem_append] at member
      rcases member with here | later
      · exact ⟨c, List.mem_cons_self, _, lowersTo_lowerAt before c after, here⟩
      · obtain ⟨origin, inside, form, lowers, given⟩ := induction later
        exact ⟨origin, List.mem_cons_of_mem c inside, form, lowers, given⟩

theorem lower_of_plain (plain : ∀ c ∈ text, isCapital c = false) : lower text = text := by
  rw [lower_eq_lowerFrom]
  exact lowerFrom_of_plain plain []

theorem isCapital_of_mem_lower {d : Char} (member : d ∈ lower text) : isCapital d = false := by
  rw [lower_eq_lowerFrom] at member
  obtain ⟨_, _, _, lowers, given⟩ := exists_of_mem_lowerFrom member
  exact lowers.isCapital_eq_false given

theorem lower_lower (text : List Char) : lower (lower text) = lower text := by
  apply lower_of_plain
  intro c member
  exact isCapital_of_mem_lower member

theorem isBlank_of_mem_lower (unbroken : ∀ c ∈ text, isBlank c = false) {d : Char}
    (member : d ∈ lower text) : isBlank d = false := by
  rw [lower_eq_lowerFrom] at member
  obtain ⟨c, inside, _, lowers, given⟩ := exists_of_mem_lowerFrom member
  rw [lowers.isBlank_eq given, unbroken c inside]

theorem lower_eq_nil_iff : lower text = [] ↔ text = [] := by
  cases text with
  | nil => exact iff_of_true rfl rfl
  | cons c after =>
      have given := (lowersTo_lowerAt [] c after).ne_nil
      rw [lower_eq_lowerFrom, lowerFrom]
      simp [given]

end Plain

section Barriers

variable {blank : Char} (white : isBlank blank = true)
include white

theorem beginsCased_append_blank (front back : List Char) :
    beginsCased (front ++ blank :: back) = beginsCased front := by
  obtain ⟨held, uncased⟩ := apart_of_isBlank white
  induction front with
  | nil => simp [beginsCased, held, uncased]
  | cons c front induction =>
      unfold beginsCased at induction ⊢
      cases skipped : isIgnorable c with
      | true => simpa [List.dropWhile_cons, skipped] using induction
      | false => simp [skipped]

theorem lowerAt_append_blank_before (before far : List Char) (c : Char) (after : List Char) :
    lowerAt (before ++ blank :: far) c after = lowerAt before c after := by
  unfold lowerAt
  rw [beginsCased_append_blank white]

theorem lowerAt_append_blank_after (before : List Char) (c : Char) (after far : List Char) :
    lowerAt before c (after ++ blank :: far) = lowerAt before c after := by
  unfold lowerAt
  rw [beginsCased_append_blank white]

theorem lowerFrom_append_blank_before (before far text : List Char) :
    lowerFrom (before ++ blank :: far) text = lowerFrom before text := by
  induction text generalizing before with
  | nil => rfl
  | cons c after induction =>
      have rest := induction (c :: before)
      rw [List.cons_append] at rest
      rw [lowerFrom, lowerFrom, lowerAt_append_blank_before white, rest]

theorem lowerAt_blank (before after : List Char) : lowerAt before blank after = [blank] := by
  apply (lowersTo_lowerAt before blank after).eq_self
  rw [← Bool.not_eq_true]
  intro capital
  rw [isBlank_of_isCapital capital] at white
  cases white

theorem lowerFrom_append_blank (before front back : List Char) :
    lowerFrom before (front ++ blank :: back) =
      lowerFrom before front ++ blank :: lowerFrom [] back := by
  induction front generalizing before with
  | nil =>
      have rest := lowerFrom_append_blank_before white [] before back
      rw [List.nil_append] at rest
      change lowerAt before blank back ++ lowerFrom (blank :: before) back = _
      rw [lowerAt_blank white, rest]
      rfl
  | cons c front induction =>
      rw [List.cons_append, lowerFrom, lowerFrom, lowerAt_append_blank_after white, induction,
        List.append_assoc]

/-- A text is lowered on either side of a blank on its own. -/
theorem lower_append_blank (front back : List Char) :
    lower (front ++ blank :: back) = lower front ++ blank :: lower back := by
  simp only [lower_eq_lowerFrom]
  exact lowerFrom_append_blank white [] front back

theorem lower_cons_blank (rest : List Char) : lower (blank :: rest) = blank :: lower rest :=
  lower_append_blank white [] rest

theorem words_append_blank (front back : List Char) :
    words (front ++ blank :: back) = words front ++ words back := by
  unfold words
  rw [List.splitOnP_append_cons front back white, List.filter_append]

theorem words_cons_blank (rest : List Char) : words (blank :: rest) = words rest :=
  words_append_blank white [] rest

end Barriers

section Words

/-- A fact about all texts, from texts without blanks and from what is on either side of one. -/
theorem blank_induction {motive : List Char → Prop}
    (unbroken : ∀ text, (∀ c ∈ text, isBlank c = false) → motive text)
    (broken : ∀ front blank back, isBlank blank = true → motive front → motive back →
      motive (front ++ blank :: back)) (text : List Char) : motive text := by
  -- The part before the text is what has been read of the piece that is open.
  suffices reading : ∀ front, (∀ c ∈ front, isBlank c = false) → motive (front ++ text) from
    reading [] (by simp)
  induction text with
  | nil =>
      intro front free
      rw [List.append_nil]
      exact unbroken front free
  | cons c rest induction =>
      intro front free
      cases white : isBlank c with
      | true => exact broken front c rest white (unbroken front free) (induction [] (by simp))
      | false =>
          have longer := induction (front ++ [c]) (by
            intro d member
            rcases List.mem_append.1 member with earlier | last
            · exact free d earlier
            · rw [List.mem_singleton.1 last, white])
          rwa [List.append_assoc, List.singleton_append] at longer

theorem words_of_unbroken {text : List Char} (unbroken : ∀ c ∈ text, isBlank c = false) :
    words text = if text = [] then [] else [text] := by
  unfold words
  rw [List.splitOnP_eq_singleton unbroken]
  cases text <;> simp

/-- The words of a lowered text are its words, each lowered alone. -/
theorem words_lower (text : List Char) : words (lower text) = (words text).map lower := by
  induction text using blank_induction with
  | unbroken text free =>
      rw [words_of_unbroken free, words_of_unbroken fun d member => isBlank_of_mem_lower free member,
        if_congr lower_eq_nil_iff rfl rfl]
      split <;> rfl
  | broken front blank back white first second =>
      rw [lower_append_blank white, words_append_blank white, words_append_blank white, first,
        second, List.map_append]

theorem isBlank_of_mem_words {text word : List Char} (member : word ∈ words text) :
    ∀ c ∈ word, isBlank c = false := by
  induction text using blank_induction with
  | unbroken text free =>
      rw [words_of_unbroken free] at member
      split at member
      · cases member
      · rwa [List.mem_singleton.1 member]
  | broken front blank back white first second =>
      rw [words_append_blank white, List.mem_append] at member
      rcases member with earlier | later
      · exact first earlier
      · exact second later

end Words

section Trim

theorem trim_eq (text : List Char) : trim text = (trimLeft text).rdropWhile isBlank := rfl

theorem trimLeft_of_head {c : Char} (solid : isBlank c = false) (rest : List Char) :
    trimLeft (c :: rest) = c :: rest := by
  unfold trimLeft
  rw [List.dropWhile_cons_of_neg (by simp [solid])]

theorem trimLeft_blank {c : Char} (white : isBlank c = true) (rest : List Char) :
    trimLeft (c :: rest) = trimLeft rest := by
  unfold trimLeft
  rw [List.dropWhile_cons_of_pos white]

theorem trimLeft_lower (text : List Char) : trimLeft (lower text) = lower (trimLeft text) := by
  induction text with
  | nil => rfl
  | cons c rest induction =>
      cases white : isBlank c with
      | true =>
          rw [trimLeft_blank white, lower_cons_blank white, trimLeft_blank white, induction]
      | false =>
          have lowers := lowersTo_lowerAt [] c rest
          obtain ⟨d, form, shape⟩ := List.exists_cons_of_ne_nil lowers.ne_nil
          have solid : isBlank d = false := by
            rw [lowers.isBlank_eq (by rw [shape]; exact List.mem_cons_self), white]
          rw [trimLeft_of_head white, lower_eq_lowerFrom, lowerFrom, shape, List.cons_append,
            trimLeft_of_head solid]

theorem exists_lowerFrom_concat (before front : List Char) (c : Char) :
    ∃ shown, lowerFrom before (front ++ [c]) =
      shown ++ lowerAt (front.reverse ++ before) c [] := by
  induction front generalizing before with
  | nil => exact ⟨[], by simp [lowerFrom]⟩
  | cons first front induction =>
      obtain ⟨shown, rest⟩ := induction (first :: before)
      refine ⟨lowerAt before first (front ++ [c]) ++ shown, ?_⟩
      rw [List.cons_append, lowerFrom, rest]
      simp

theorem rdropWhile_lower (text : List Char) :
    (lower text).rdropWhile isBlank = lower (text.rdropWhile isBlank) := by
  induction text using List.reverseRecOn with
  | nil => rfl
  | append_singleton front c induction =>
      cases white : isBlank c with
      | true =>
          have cut : lower (front ++ [c]) = lower front ++ [c] := lower_append_blank white front []
          rw [cut, List.rdropWhile_concat_pos _ _ _ white, induction,
            List.rdropWhile_concat_pos _ _ _ white]
      | false =>
          -- The form of a last character that is not blank ends with one that is not blank either.
          obtain ⟨shown, last⟩ := exists_lowerFrom_concat [] front c
          have lowers := lowersTo_lowerAt (front.reverse ++ []) c []
          obtain ⟨form, d, shape⟩ := (List.eq_nil_or_concat' _).resolve_left lowers.ne_nil
          have solid : isBlank d = false := by
            rw [lowers.isBlank_eq (by rw [shape]; simp), white]
          rw [List.rdropWhile_concat_neg _ _ _ (by simp [white]), lower_eq_lowerFrom, last, shape,
            ← List.append_assoc, List.rdropWhile_concat_neg _ _ _ (by simp [solid])]

theorem trim_lower (text : List Char) : trim (lower text) = lower (trim text) := by
  rw [trim_eq, trim_eq, trimLeft_lower, rdropWhile_lower]

theorem trimLeft_eq_self_of_prefix {text front : List Char} (start : front <+: trimLeft text) :
    trimLeft front = front := by
  cases front with
  | nil => rfl
  | cons c rest =>
      obtain ⟨back, shape⟩ := start
      apply trimLeft_of_head
      have head : ((c :: rest) ++ back).head? = some c := rfl
      rw [shape] at head
      have solid := List.head?_dropWhile_not isBlank text
      unfold trimLeft at head
      rw [head] at solid
      simpa using solid

theorem trim_eq_self {text : List Char} (head : ∀ c ∈ text.head?, isBlank c = false)
    (last : ∀ c ∈ text.getLast?, isBlank c = false) : trim text = text := by
  cases text with
  | nil => rfl
  | cons c rest =>
      rw [trim_eq, trimLeft_of_head (head c rfl), List.rdropWhile_eq_self_iff]
      intro nonempty
      rw [last _ (List.getLast?_eq_some_getLast nonempty)]
      exact Bool.false_ne_true

theorem trim_trim (text : List Char) : trim (trim text) = trim text := by
  rw [trim_eq text, trim_eq, trimLeft_eq_self_of_prefix (List.rdropWhile_prefix _ _),
    List.rdropWhile_idempotent]

theorem words_trim (text : List Char) : words (trim text) = words text := by
  have left : ∀ text, words (trimLeft text) = words text := by
    intro text
    induction text with
    | nil => rfl
    | cons c rest induction =>
        cases white : isBlank c with
        | true => rw [trimLeft_blank white, induction, words_cons_blank white]
        | false => rw [trimLeft_of_head white]
  have right : ∀ text, words (text.rdropWhile isBlank) = words text := by
    intro text
    induction text using List.reverseRecOn with
    | nil => rfl
    | append_singleton front c induction =>
        cases white : isBlank c with
        | true =>
            rw [List.rdropWhile_concat_pos _ _ _ white, induction, words_append_blank white]
            exact (List.append_nil _).symm
        | false => rw [List.rdropWhile_concat_neg _ _ _ (by simp [white])]
  rw [trim_eq, right, left]

end Trim

section Letters

theorem beginsCased_map_toLower (text : List Char) :
    beginsCased (text.map Char.toLower) = beginsCased text := by
  unfold beginsCased
  induction text with
  | nil => rfl
  | cons c rest induction =>
      rw [List.map_cons, List.dropWhile_cons, List.dropWhile_cons, isIgnorable_toLower]
      cases isIgnorable c with
      | true => exact induction
      | false => exact isCased_toLower c

theorem lowerAt_map_toLower (before : List Char) (c : Char) (after : List Char) :
    lowerAt (before.map Char.toLower) c.toLower (after.map Char.toLower) =
      lowerAt before c after := by
  have sigma : c.toLower = 'Σ' ↔ c = 'Σ' := toLower_eq_iff (by decide)
  unfold lowerAt
  simp only [sigma, beginsCased_map_toLower, lowerChar_toLower]

theorem lowerFrom_map_toLower (before text : List Char) :
    lowerFrom (before.map Char.toLower) (text.map Char.toLower) = lowerFrom before text := by
  induction text generalizing before with
  | nil => rfl
  | cons c after induction =>
      have rest := induction (c :: before)
      rw [List.map_cons] at rest
      rw [List.map_cons, lowerFrom, lowerFrom, lowerAt_map_toLower, rest]

theorem lower_map_toLower (text : List Char) : lower (text.map Char.toLower) = lower text := by
  simp only [lower_eq_lowerFrom]
  exact lowerFrom_map_toLower [] text

end Letters

end Abacus.Text
