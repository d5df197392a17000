import Abacus.Phrase.Scan

/-!
A source text as the row of its pieces between semicolons. The scan looks at one character at a
time; where it stands is a function of the line on which the open piece begins and of what it has
seen of that piece. Main statement: the phrases of a text are those of its pieces, without the last
one if that is blank, and the line of a phrase counts the line ends before the first character of
its piece that is not blank, or before the semicolon after a blank piece.
-/

namespace Abacus

namespace Phrase

def ofPiece (line : Nat) (piece : List Char) : Phrase :=
  ofRaw (line + (piece.takeWhile Text.isBlank).count '\n') piece

/-- The phrases of a row of pieces, the first of which begins on a line. All but the last end with
a semicolon. -/
def ofPieces (line : Nat) : List (List Char) → List Phrase
  | [] => []
  | [last] => if Text.isBlankText last then [] else [ofPiece line last]
  | piece :: next :: rest => ofPiece line piece :: ofPieces (line + piece.count '\n') (next :: rest)

theorem ofPieces_cons (line : Nat) (piece : List Char) {rest : List (List Char)}
    (more : rest ≠ []) :
    ofPieces line (piece :: rest) =
      ofPiece line piece :: ofPieces (line + piece.count '\n') rest := by
  cases rest with
  | nil => exact absurd rfl more
  | cons next rest => rfl

end Phrase

namespace Text

theorem takeWhile_append_of_isBlankText {text : List Char} (blank : isBlankText text = true)
    (rest : List Char) : (text ++ rest).takeWhile isBlank = text ++ rest.takeWhile isBlank :=
  List.takeWhile_append_of_pos (isBlankText_iff.1 blank)

theorem takeWhile_of_isBlankText {text : List Char} (blank : isBlankText text = true) :
    text.takeWhile isBlank = text := by
  simpa using takeWhile_append_of_isBlankText blank []

/-- The blanks that a text begins with are known as soon as one of its characters is not blank. -/
theorem takeWhile_concat {text : List Char} (started : isBlankText text = false) (c : Char) :
    (text ++ [c]).takeWhile isBlank = text.takeWhile isBlank := by
  rw [List.takeWhile_append, if_neg]
  intro whole
  have same := (List.takeWhile_prefix isBlank).eq_of_length whole
  have all := List.all_takeWhile (p := isBlank) (l := text)
  rw [same] at all
  exact Bool.false_ne_true (started.symm.trans all)

theorem isBlankText_concat (text : List Char) (c : Char) :
    isBlankText (text ++ [c]) = (isBlankText text && isBlank c) := by
  simp [isBlankText]

/-- The text before a piece, with the semicolons that end the pieces in it. -/
def beforePiece (pieces : List (List Char)) (index : Nat) : List Char :=
  (pieces.take index).flatMap (· ++ [';'])

/-- The text after a piece, with the semicolons that come before the pieces in it. -/
def afterPiece (pieces : List (List Char)) (index : Nat) : List Char :=
  (pieces.drop (index + 1)).flatMap (';' :: ·)

theorem intercalate_cons (piece : List Char) (rest : List (List Char)) :
    [';'].intercalate (piece :: rest) = piece ++ rest.flatMap (';' :: ·) := by
  induction rest generalizing piece with
  | nil => simp
  | cons next rest induction => simp [List.intercalate_cons_cons, induction]

theorem intercalate_around {pieces : List (List Char)} {piece : List Char} {index : Nat}
    (here : pieces[index]? = some piece) :
    [';'].intercalate pieces = beforePiece pieces index ++ piece ++ afterPiece pieces index := by
  induction index generalizing pieces with
  | zero =>
      cases pieces with
      | nil => cases here
      | cons first rest =>
          obtain rfl : first = piece := by simpa using here
          simp [intercalate_cons, beforePiece, afterPiece]
  | succ index induction =>
      cases pieces with
      | nil => cases here
      | cons first rest =>
          rw [List.getElem?_cons_succ] at here
          cases rest with
          | nil => cases here
          | cons next rest =>
              rw [List.intercalate_cons_cons, induction here]
              simp [beforePiece, afterPiece]

theorem modifyHead_nil_append (pieces : List (List Char)) :
    pieces.modifyHead ([] ++ ·) = pieces := congrFun List.modifyHead_id pieces

theorem isBlankText_reverse (text : List Char) : isBlankText text.reverse = isBlankText text := by
  simp [isBlankText]

end Text

namespace Scan

/-- Where a scan stands after `piece`, which has begun on `line` and has not ended. -/
def within (closed : Array Phrase) (line : Nat) (piece : List Char) : Scan where
  line := line + piece.count '\n'
  start? :=
    if Text.isBlankText piece then none
    else some (line + (piece.takeWhile Text.isBlank).count '\n')
  pending := piece.reverse
  closed := closed

variable {closed : Array Phrase} {line : Nat} {piece : List Char}

theorem openPhrase_within : (within closed line piece).openPhrase = Phrase.ofPiece line piece := by
  cases blank : Text.isBlankText piece with
  | true => simp [openPhrase, within, blank, Phrase.ofPiece, Text.takeWhile_of_isBlankText blank]
  | false => simp [openPhrase, within, blank, Phrase.ofPiece]

theorem close_within :
    (within closed line piece).close =
      within (closed.push (Phrase.ofPiece line piece)) (line + piece.count '\n') [] := by
  rw [close, openPhrase_within]
  simp [within, Text.isBlankText]

theorem next_semicolon :
    (within closed line piece).next ';' =
      within (closed.push (Phrase.ofPiece line piece)) (line + piece.count '\n') [] := by
  rw [next, if_pos rfl, close_within]

theorem next_other {c : Char} (other : c ≠ ';') :
    (within closed line piece).next c = within closed line (piece ++ [c]) := by
  have count : (if c = '\n' then line + piece.count '\n' + 1 else line + piece.count '\n') =
      line + (piece ++ [c]).count '\n' := by
    by_cases newline : c = '\n'
    · simp [newline, Nat.add_assoc]
    · simp [newline]
  rw [next, if_neg other, take]
  simp only [within, Scan.mk.injEq, List.reverse_append, List.reverse_singleton,
    List.singleton_append, and_true]
  refine ⟨count, ?_⟩
  by_cases blank : Text.isBlankText piece = true
  · -- The start of the piece is here, or still to come.
    have before := Text.takeWhile_append_of_isBlankText blank [c]
    by_cases white : Text.isBlank c = true
    · simp [Text.isBlankText_concat, blank, white]
    · simp [Text.isBlankText_concat, blank, white, before]
  · rw [Bool.not_eq_true] at blank
    simp [Text.isBlankText_concat, blank, Text.takeWhile_concat blank]

theorem finish_within :
    (within closed line piece).finish.toList =
      closed.toList ++ Phrase.ofPieces line [piece] := by
  rw [finish, close_within]
  simp only [within, Text.isBlankText_reverse, Phrase.ofPieces]
  cases Text.isBlankText piece <;> simp

/-- The rest of a text goes on with the open piece. -/
theorem finish_foldl_next (rest : List Char) :
    (rest.foldl next (within closed line piece)).finish.toList =
      closed.toList ++ Phrase.ofPieces line ((rest.splitOn ';').modifyHead (piece ++ ·)) := by
  induction rest generalizing closed line piece with
  | nil => simp [finish_within]
  | cons c rest induction =>
      rw [List.foldl_cons, List.splitOn_cons_eq_if_modifyHead]
      by_cases ends : c = ';'
      · subst ends
        rw [next_semicolon, induction, Text.modifyHead_nil_append, if_pos (beq_self_eq_true _),
          List.modifyHead_cons, Phrase.ofPieces_cons _ _ (List.splitOn_ne_nil _ _)]
        simp
      · rw [next_other ends, induction, if_neg (by simpa using ends), List.modifyHead_modifyHead]
        simp [Function.comp_def]

end Scan

namespace Phrase

theorem scan_eq_ofPieces (source : List Char) :
    (scan source).toList = ofPieces 1 (source.splitOn ';') := by
  have start : ({} : Scan) = .within #[] 1 [] := rfl
  rw [scan, start, Scan.finish_foldl_next, Text.modifyHead_nil_append]
  simp

/-- The last piece gives a phrase only if something in it is not blank. -/
theorem length_ofPieces (line : Nat) (front : List (List Char)) (last : List Char) :
    (ofPieces line (front ++ [last])).length =
      front.length + if Text.isBlankText last then 0 else 1 := by
  induction front generalizing line with
  | nil =>
      rw [List.nil_append, ofPieces]
      cases Text.isBlankText last <;> simp
  | cons piece front induction =>
      rw [List.cons_append, ofPieces_cons _ _ (by simp), List.length_cons, List.length_cons,
        induction]
      omega

/-- A phrase is that of its piece, on the line that the text before the piece leads to. A blank
piece with a phrase is not the last one. -/
theorem phrase_of_piece {line index : Nat} {pieces : List (List Char)} {piece : List Char}
    {phrase : Phrase} (cut : pieces[index]? = some piece)
    (found : (ofPieces line pieces)[index]? = some phrase) :
    phrase = ofPiece (line + (Text.beforePiece pieces index).count '\n') piece ∧
      (Text.isBlankText piece = true → index + 1 < pieces.length) := by
  induction index generalizing line pieces with
  | zero =>
      cases pieces with
      | nil => cases cut
      | cons first rest =>
          obtain rfl : first = piece := by simpa using cut
          cases rest with
          | nil =>
              simp only [ofPieces] at found
              split at found
              · cases found
              · rename_i marked
                obtain rfl := Option.some.inj found
                exact ⟨by simp [Text.beforePiece], fun blank => absurd blank marked⟩
          | cons next rest =>
              obtain rfl := Option.some.inj found
              exact ⟨by simp [Text.beforePiece], by simp⟩
  | succ index induction =>
      cases pieces with
      | nil => cases cut
      | cons first rest =>
          rw [List.getElem?_cons_succ] at cut
          have more : rest ≠ [] := by
            rintro rfl
            cases cut
          rw [ofPieces_cons _ _ more, List.getElem?_cons_succ] at found
          obtain ⟨rfl, ended⟩ := induction cut found
          refine ⟨?_, fun blank => Nat.succ_lt_succ (ended blank)⟩
          simp [Text.beforePiece, Nat.add_assoc]

theorem length_ofPieces_le (line : Nat) (pieces : List (List Char)) :
    (ofPieces line pieces).length ≤ pieces.length := by
  rcases List.eq_nil_or_concat pieces with rfl | ⟨front, last, rfl⟩
  · exact Nat.le_refl 0
  · rw [List.concat_eq_append, length_ofPieces, List.length_append]
    split <;> simp

theorem exists_piece_of_scan {source : List Char} {index : Nat} {phrase : Phrase}
    (found : (scan source)[index]? = some phrase) :
    ∃ line piece, (source.splitOn ';')[index]? = some piece ∧ phrase = ofPiece line piece := by
  rw [← Array.getElem?_toList, scan_eq_ofPieces] at found
  have inside : index < (source.splitOn ';').length := by
    have bounded := (List.getElem?_eq_some_iff.1 found).1
    have fewer := length_ofPieces_le 1 (source.splitOn ';')
    omega
  have cut := List.getElem?_eq_getElem inside
  exact ⟨_, _, cut, (phrase_of_piece cut found).1⟩

structure StandsFor (phrase : Phrase) (front piece back : List Char) : Prop where
  text : phrase.text = String.ofList (Text.lower (Text.trim piece))
  marked : ∀ blanks c rest, piece = blanks ++ c :: rest → Text.isBlankText blanks = true →
    Text.isBlank c = false → phrase.line = 1 + (front ++ blanks).count '\n'
  blank : Text.isBlankText piece = true →
    back.head? = some ';' ∧ phrase.line = 1 + (front ++ piece).count '\n'

/-- The phrases of a text are its pieces, each on its line. Only a blank last piece has none. -/
theorem scan_cuts_at_semicolons (source : List Char) :
    ∃ front last, source.splitOn ';' = front ++ [last] ∧
      (scan source).size = front.length + (if Text.isBlankText last then 0 else 1) ∧
      ∀ index piece phrase, (front ++ [last])[index]? = some piece →
        (scan source)[index]? = some phrase →
        source = Text.beforePiece (front ++ [last]) index ++ piece ++
            Text.afterPiece (front ++ [last]) index ∧
          phrase.StandsFor (Text.beforePiece (front ++ [last]) index) piece
            (Text.afterPiece (front ++ [last]) index) := by
  obtain ⟨front, last, cut⟩ : ∃ front last, source.splitOn ';' = front ++ [last] :=
    ⟨_, _, (List.dropLast_concat_getLast (List.splitOn_ne_nil ';' source)).symm⟩
  have phrases := scan_eq_ofPieces source
  rw [cut] at phrases
  refine ⟨front, last, cut, ?_, ?_⟩
  · rw [← Array.length_toList, phrases, length_ofPieces]
  · intro index piece phrase here found
    rw [← Array.getElem?_toList, phrases] at found
    obtain ⟨rfl, ended⟩ := phrase_of_piece here found
    refine ⟨?_, rfl, ?_, ?_⟩
    · rw [← Text.intercalate_around here, ← cut, List.intercalate_splitOn]
    · rintro blanks c rest rfl white marked
      have start := Text.takeWhile_append_of_isBlankText white (c :: rest)
      simp [ofPiece, ofRaw, start, marked, Nat.add_assoc]
    · intro white
      refine ⟨by rw [Text.afterPiece, List.drop_eq_getElem_cons (ended white)]; rfl, ?_⟩
      simp [ofPiece, ofRaw, Text.takeWhile_of_isBlankText white, Nat.add_assoc]

example :
    (scan "clear x;\nincr x;\n\n  while\n x; ;\n".toList).map Phrase.line = #[1, 2, 4, 5] := by
  decide +kernel

end Phrase

end Abacus
