import Abacus.Bytecode.Container

/-!
Telling compiled files from source texts by their first four bytes, which may arrive in any
number of pieces.
-/

namespace Abacus.Bytecode

inductive Reading where
  | piece (bytes : List UInt8)
  | ended
  | failed
deriving DecidableEq

/-- Reads on until `wanted` bytes are there. There is no result if the input ends or a read
fails before. -/
def fill (wanted : Nat) (got : List UInt8) (readings : List Reading) : Option (List UInt8) :=
  if wanted ≤ got.length then some (got.take wanted)
  else
    match readings with
    | .piece bytes :: rest => fill wanted (got ++ bytes) rest
    | _ => none

def detect (readings : List Reading) : Bool := fill magic.length [] readings == some magic

def isCompiled (bytes : List UInt8) : Bool := detect [.piece bytes, .ended]

/-- Appends the first `count` pieces of `chunk` bytes to `pieces`, which are kept last first. -/
def Reading.cut (chunk : Nat) : (count : Nat) → List UInt8 → List Reading → List Reading
  | 0, _, pieces => pieces
  | count + 1, bytes, pieces =>
    cut chunk count (bytes.drop chunk) (.piece (bytes.take chunk) :: pieces)

/-- The readings of an input that gives at most `chunk` bytes at a time and, if `failAt?` is
given, fails once that many bytes were read. -/
def Reading.deliver (bytes : List UInt8) (chunk : Nat) (failAt? : Option Nat) : List Reading :=
  if chunk = 0 then [.ended]
  else
    let (given, last) := match failAt? with
      | some failAt =>
        (bytes.take failAt, if failAt ≤ bytes.length then Reading.failed else .ended)
      | none => (bytes, .ended)
    (last :: cut chunk ((given.length + chunk - 1) / chunk) given []).reverse

end Abacus.Bytecode
