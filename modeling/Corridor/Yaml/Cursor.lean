import Corridor.Yaml.Character

/-!
# Cursors

A cursor stands at a place in a document: it knows the text that is left, and the line and the
column it has come to.
-/

namespace Corridor.Yaml

/-- A place in a document. -/
structure Cursor where
  rest : List Char
  /-- How many characters lie before. -/
  index : Nat
  line : Nat
  column : Nat
deriving Inhabited

namespace Cursor

/-- The start of a text. -/
def start (cs : List Char) : Cursor := ⟨cs, 0, 0, 0⟩

/-- Moves past the given characters, to what is left after them. -/
def pass (c : Cursor) (rest : List Char) : List Char → Cursor
  | [] => { c with rest }
  | x :: xs =>
      let next : Cursor :=
        if isBreak x then ⟨rest, c.index + 1, c.line + 1, 0⟩
        else if x = byteOrderMark then ⟨rest, c.index + 1, c.line, c.column⟩
        else ⟨rest, c.index + 1, c.line, c.column + 1⟩
      next.pass rest xs

/-- Moves `n` characters ahead. -/
def advance (c : Cursor) (n : Nat) : Cursor := c.pass (c.rest.drop n) (c.rest.take n)

/-- Moves ahead to what is left of the text. -/
def advanceTo (c : Cursor) (rest : List Char) : Cursor := c.advance (c.rest.length - rest.length)

/-- Whether a document marker of the given character stands here. -/
def atMarker (c : Cursor) (mark : Char) : Bool := c.column = 0 && startsMarker mark c.rest

/-- How many characters lie before the next token: spaces, line breaks and comments. -/
def gapLength (inComment : Bool) : List Char → Nat
  | [] => 0
  | c :: cs =>
      if isBreak c then gapLength false cs + 1
      else if inComment || c = '#' then gapLength true cs + 1
      else if c = ' ' then gapLength false cs + 1
      else 0

end Cursor

end Corridor.Yaml
