import Corridor.Yaml.Cursor

/-!
# Plain Scalars

A plain scalar is a run of words without quotes. It may go on over several lines, as long as
they are indented enough; between words on one line blanks stand for themselves, and line breaks
are folded. A colon that ends a word and a number sign that begins one end the scalar, and so do
the indicators of flow collections inside one.
-/

namespace Corridor.Yaml.Plain

/-- Whether a character inside a flow collection ends a word of a plain scalar. -/
def isFlowIndicator (c : Char) : Bool := ",?[]\x7b\x7d".toList.contains c

/-- Whether a colon before the given character ends a word. -/
def colonEnds (inFlow : Bool) (next : Option Char) : Bool :=
  endsWord next || (inFlow && next.any fun c => ",[]\x7b\x7d".toList.contains c)

/-- The length of the word at the front. -/
def wordLength (inFlow : Bool) : List Char → Nat
  | [] => 0
  | c :: cs =>
      if isSpace c || isBreak c || (c = ':' && colonEnds inFlow cs.head?) ||
          (inFlow && isFlowIndicator c) then 0
      else wordLength inFlow cs + 1

/-- What follows a word: the text that stands for the blanks, where they end, and whether there
was a line break. The text is empty if the scalar ends here. -/
structure Gap where
  text : List Char
  cursor : Cursor
  breaks : Bool

/-- The blanks after a word. -/
def gapAfter (c : Cursor) : Gap :=
  let spaces := c.rest.takeWhile (· = ' ')
  let c := c.advance spaces.length
  if c.rest.head?.any isBreak then
    let region := c.rest.takeWhile fun x => x = ' ' || isBreak x
    let c := c.advance region.length
    ⟨if runsIntoMarker region c.rest then [] else folded (keptBreaks region), c, true⟩
  else ⟨spaces, c, false⟩

/-- A plain scalar with what follows it, and whether a line break was the last thing read. -/
structure Reading where
  text : List Char
  cursor : Cursor
  breaks : Bool

/-- Reads words from here on, at most as many as given. The blanks before a word count only if
the word is there. -/
def read (inFlow : Bool) (indent : Nat) : Nat → Cursor → List Char → Bool → Reading
  | 0, c, _, breaks => ⟨[], c, breaks⟩
  | words + 1, c, blanks, breaks =>
      let n := wordLength inFlow c.rest
      if n = 0 then ⟨[], c, breaks⟩
      else
        let text := blanks ++ c.rest.take n
        let gap := gapAfter (c.advance n)
        if gap.text.isEmpty || gap.cursor.rest.head? = some '#' ||
            (!inFlow && gap.cursor.column < indent) then ⟨text, gap.cursor, gap.breaks⟩
        else
          let more := read inFlow indent words gap.cursor gap.text gap.breaks
          { more with text := text ++ more.text }

/-- The plain scalar at a cursor. Its lines after the first one have to reach the indent, unless
it stands in a flow collection. -/
def scan (inFlow : Bool) (indent : Nat) (c : Cursor) : Reading :=
  read inFlow indent c.rest.length c [] false

end Corridor.Yaml.Plain
