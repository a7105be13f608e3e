import Corridor.Fault
import Corridor.Yaml.Character

/-!
# Tags

A tag says what a node is meant to be. It is written with a handle that is short for the common
part of the standard tags, in full between angle brackets, or as a lone mark that leaves the
meaning open.
-/

namespace Corridor.Yaml

/-- What a tag asks for. -/
inductive Tag where
  /-- Whatever the text of the node suggests. -/
  | open
  | text
  | integer
  | number
  /-- Something that no setting can be. -/
  | other
deriving Repr, DecidableEq, Inhabited

namespace Tag

/-- What the standard tags begin with. -/
def standard : String := "tag:yaml.org,2002:"

/-- The tag of a full name. -/
def ofName (name : String) : Tag :=
  if name = "!" then .open
  else if name = standard ++ "str" then text
  else if name = standard ++ "int" then integer
  else if name = standard ++ "float" then number
  else other

/-- Whether a character can be part of a name. -/
def isNameChar (c : Char) : Bool := c.isAlphanum || "-;/?:@&=+$,_.!~*'()[]".toList.contains c

/-- Reads a name, which must not be empty, after the given beginning. -/
def readName (beginning : String) (cs : List Char) : Except Fault (Tag × List Char) :=
  let name := cs.takeWhile isNameChar
  if name.isEmpty then .error .documentMalformed
  else .ok (ofName (beginning ++ String.ofList name), cs.dropWhile isNameChar)

/-- Reads what follows the mark that begins a tag. -/
def readBody (cs : List Char) : Except Fault (Tag × List Char) :=
  match cs with
  | '<' :: cs => do
      match ← readName "" cs with
      | (tag, '>' :: rest) => return (tag, rest)
      | _ => .error .documentMalformed
  | cs =>
      if endsWord cs.head? then .ok (.open, cs)
      else
        let word := cs.takeWhile fun c => c ≠ ' ' && !isBreak c
        if word.contains '!' then
          match cs with
          | '!' :: cs => readName standard cs
          | _ => .error .documentMalformed
        else readName "!" cs

/-- Reads what follows the mark that begins a tag, up to a space or the end of the line. -/
def read (cs : List Char) : Except Fault (Tag × List Char) := do
  let (tag, rest) ← readBody cs
  if rest.head?.all fun c => c = ' ' || isBreak c then return (tag, rest)
  else .error .documentMalformed

end Tag

end Corridor.Yaml
