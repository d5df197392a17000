/-!
Numbers in text: right-aligned columns, and decimal numbers read with a bound.
-/

namespace Abacus.Text

def alignRight (width : Nat) (text : String) : String :=
  String.ofList (text.toList.leftpad width ' ')

/-- Reads an optional plus sign and one or more ASCII digits whose value is at most `most`. -/
def readDecimal? (most : Nat) (text : List Char) : Option Nat :=
  let digits := match text with
    | '+' :: rest => rest
    | _ => text
  if digits.isEmpty || !digits.all Char.isDigit then none
  else
    let value := Nat.ofDigitChars 10 digits 0
    if value ≤ most then some value else none

end Abacus.Text
