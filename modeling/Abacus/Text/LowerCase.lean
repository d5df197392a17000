import Abacus.Text.CaseTable

/-!
Full lower-casing of a text. One character alone depends on its neighbours: a capital
sigma becomes a final sigma at the end of a word, that is after a cased letter and not
before one, where case-ignorable characters in between are looked past. Main statement:
the loop that runs computes the plain recursion `lowerFrom`.
-/

namespace Abacus.Text

def isIgnorable (c : Char) : Bool := inRanges ignorableRanges c.toNat

def isCased (c : Char) : Bool := inRanges casedRanges c.toNat

/-- Past its case-ignorable characters, the text begins with a cased letter. -/
def beginsCased (text : List Char) : Bool :=
  match text.dropWhile isIgnorable with
  | [] => false
  | c :: _ => isCased c

/-- The lower-case form of a character that stands alone. -/
def lowerChar (c : Char) : List Char :=
  if c.toNat < 0x80 then [c.toLower]
  else if c = '\u0130' then ['i', '\u0307']
  else
    match lowerStrides.find? (·.covers c.toNat) with
    | some stride => [Char.ofNat (c.toNat + stride.shift).toNat]
    | none => [c]

/-- The lower-case form of `c` between `before`, nearest character first, and `after`. -/
def lowerAt (before : List Char) (c : Char) (after : List Char) : List Char :=
  if c = 'Σ' then
    if beginsCased before && !beginsCased after then ['ς'] else ['σ']
  else lowerChar c

def lowerFrom (before : List Char) : List Char → List Char
  | [] => []
  | c :: after => lowerAt before c after ++ lowerFrom (c :: before) after

/-- As `lowerFrom`, in constant stack; `lowered` is the result so far, last character first. -/
def lowerLoop (lowered before : List Char) : List Char → List Char
  | [] => lowered.reverse
  | c :: after => lowerLoop ((lowerAt before c after).reverse ++ lowered) (c :: before) after

def lower (text : List Char) : List Char := lowerLoop [] [] text

theorem lowerLoop_eq (lowered before text : List Char) :
    lowerLoop lowered before text = lowered.reverse ++ lowerFrom before text := by
  induction text generalizing lowered before with
  | nil => simp [lowerLoop, lowerFrom]
  | cons c after induction => simp [lowerLoop, lowerFrom, induction]

theorem lower_eq_lowerFrom (text : List Char) : lower text = lowerFrom [] text := by
  simp [lower, lowerLoop_eq]

def lowered (text : String) : String := String.ofList (lower text.toList)

end Abacus.Text
