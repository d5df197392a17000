import Abacus.Phrase

/-!
Cutting a source text into phrases. A semicolon ends a phrase, so a phrase may span lines;
its line is that of its first character that is not blank, or of the semicolon if it has
none. Text after the last semicolon is a phrase only if something in it is not blank.
-/

namespace Abacus

/-- Where a scan stands: the current line, the line on which the open phrase starts, its
characters (last first), and the phrases already closed. -/
structure Scan where
  line : Nat := 1
  start? : Option Nat := none
  pending : List Char := []
  closed : Array Phrase := #[]

namespace Scan

def openPhrase (scan : Scan) : Phrase :=
  Phrase.ofRaw (scan.start?.getD scan.line) scan.pending.reverse

def close (scan : Scan) : Scan :=
  { line := scan.line, start? := none, pending := [],
    closed := scan.closed.push scan.openPhrase }

def take (scan : Scan) (c : Char) : Scan :=
  { line := if c = '\n' then scan.line + 1 else scan.line
    start? := if scan.start?.isNone && !Text.isBlank c then some scan.line else scan.start?
    pending := c :: scan.pending
    closed := scan.closed }

def next (scan : Scan) (c : Char) : Scan :=
  if c = ';' then scan.close else scan.take c

def finish (scan : Scan) : Array Phrase :=
  if Text.isBlankText scan.pending then scan.closed else scan.close.closed

end Scan

namespace Phrase

def scan (source : List Char) : Array Phrase := (source.foldl Scan.next {}).finish

end Phrase

end Abacus
