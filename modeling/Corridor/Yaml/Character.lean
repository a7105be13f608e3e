/-!
# Characters of a Document

The classes of characters that the structure of a YAML document depends on, and the forms of its
line breaks.
-/

namespace Corridor.Yaml

/-- Whether a document may hold a character. -/
def isAllowed (c : Char) : Bool :=
  let n := c.toNat
  n = 0x9 || n = 0xA || n = 0xD || (0x20 ≤ n && n ≤ 0x7E) || n = 0x85 ||
    (0xA0 ≤ n && n ≤ 0xFFFD) || 0x10000 ≤ n

/-- Whether a character ends a line. -/
def isBreak (c : Char) : Bool := c = '\n' || c = '\x85' || c = '\u2028' || c = '\u2029'

/-- Whether a character is a space or a tab. -/
def isSpace (c : Char) : Bool := c = ' ' || c = '\t'

/-- Whether the end of the text or a blank follows, which ends a word. -/
def endsWord : Option Char → Bool
  | none => true
  | some c => isSpace c || isBreak c

/-- The byte order mark, which takes no column. -/
def byteOrderMark : Char := '\uFEFF'

/-- Reads every carriage return, with the line feed that may follow it, as one line feed. -/
def unifyBreaks : List Char → List Char
  | [] => []
  | '\r' :: '\n' :: cs => '\n' :: unifyBreaks cs
  | '\r' :: cs => '\n' :: unifyBreaks cs
  | c :: cs => c :: unifyBreaks cs

/-- The break that a scalar keeps for a break in the document. -/
def keptBreak (c : Char) : Char := if c = '\x85' then '\n' else c

/-- The breaks of a region between two words of a scalar. -/
def keptBreaks (cs : List Char) : List Char := (cs.filter isBreak).map keptBreak

/-- What the breaks between two words stand for: a single line feed for a space, and after the
first of several line feeds the others for themselves. -/
def folded : List Char → List Char
  | [] => []
  | b :: bs => (if b ≠ '\n' then [b] else if bs.isEmpty then [' '] else []) ++ bs

/-- Whether a text starts with a document marker of the given character. -/
def startsMarker (c : Char) : List Char → Bool
  | a :: b :: d :: rest => a = c && b = c && d = c && endsWord rest.head?
  | _ => false

/-- Whether a text starts with a document marker. -/
def startsAnyMarker (cs : List Char) : Bool := startsMarker '-' cs || startsMarker '.' cs

/-- Whether a region of blanks ends right before a document marker, at the start of a line. -/
def runsIntoMarker (region rest : List Char) : Bool :=
  region.getLast?.any isBreak && startsAnyMarker rest

end Corridor.Yaml
