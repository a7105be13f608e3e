import Corridor.Yaml.Plain
import Corridor.Yaml.QuotedScalar
import Corridor.Yaml.Token.Basic

/-!
# From Text to Tokens

A token is found by the character that it starts with, and block collections by their columns: a
line that starts farther to the right than the block around it opens one, and a line farther to
the left closes those that it leaves.

A key without a mark of its own is found only when its colon comes. So every token that could
start a key is remembered as a candidate until its line is over; when the colon comes, the token
that announces a key is put before the candidate. A candidate that stands where a block mapping
goes on has to become a key.
-/

namespace Corridor.Yaml

/-- A token that could start a key. -/
structure Candidate where
  /-- How many tokens lie before it. -/
  position : Nat
  /-- How many flow collections it lies in. -/
  depth : Nat
  /-- Whether it has to become a key. -/
  required : Bool
  index : Nat
  line : Nat
  column : Nat
deriving Inhabited

/-- The state of reading tokens. -/
structure Lexer where
  cursor : Cursor
  tokens : List Token
  /-- How many flow collections are open. -/
  depth : Nat
  /-- The columns of the open block collections, innermost first. -/
  blocks : List Nat
  /-- Whether a key can start here. -/
  keyAllowed : Bool
  candidates : List Candidate
deriving Inhabited

namespace Lexer

/-- How far from the start of a key its colon can be. -/
def keyReach : Nat := 1024

/-- The state at the start of a text. -/
def start (cs : List Char) : Lexer := ⟨Cursor.start cs, [], 0, [], true, []⟩

/-- Whether flow collections are open. -/
def inFlow (l : Lexer) : Bool := l.depth ≠ 0

/-- Adds tokens. -/
def push (l : Lexer) (ts : List Token) : Lexer := { l with tokens := l.tokens ++ ts }

/-- Moves `n` characters ahead. -/
def advance (l : Lexer) (n : Nat) : Lexer := { l with cursor := l.cursor.advance n }

/-- Says whether a key can start here. -/
def allowKey (l : Lexer) (allowed : Bool) : Lexer := { l with keyAllowed := allowed }

/-! ### Blocks -/

/-- Closes the blocks that start to the right of a column. -/
def closeBlocks (l : Lexer) (column : Nat) : Lexer :=
  if l.inFlow then l
  else
    let closed := l.blocks.takeWhile (column < ·)
    { l.push (closed.map fun _ => .blockEnd) with blocks := l.blocks.drop closed.length }

/-- Closes all blocks. -/
def closeAll (l : Lexer) : Lexer :=
  if l.inFlow then l
  else { l.push (l.blocks.map fun _ => .blockEnd) with blocks := [] }

/-- Whether a column lies to the right of the innermost block. -/
def opensBlock (l : Lexer) (column : Nat) : Bool := l.blocks.head?.all (· < column)

/-- Opens a block at a column if it lies to the right of the innermost one. -/
def openBlock (l : Lexer) (column : Nat) (token : Token) : Lexer :=
  if l.opensBlock column then { l.push [token] with blocks := column :: l.blocks } else l

/-! ### Candidates -/

/-- Forgets the candidates that a test picks, none of which may be required. -/
def forget (l : Lexer) (p : Candidate → Bool) : Except Fault Lexer :=
  if l.candidates.any fun c => p c && c.required then .error .documentMalformed
  else .ok { l with candidates := l.candidates.filter fun c => !p c }

/-- Forgets the candidates that are too far back to become a key. -/
def forgetStale (l : Lexer) : Except Fault Lexer :=
  l.forget fun c => c.line ≠ l.cursor.line || c.index + keyReach < l.cursor.index

/-- Forgets the candidate of the innermost collection. -/
def forgetHere (l : Lexer) : Except Fault Lexer := l.forget fun c => c.depth = l.depth

/-- Remembers the next token as a candidate, if a key can start here. -/
def remember (l : Lexer) : Except Fault Lexer :=
  if l.keyAllowed then do
    let l ← l.forgetHere
    let c := l.cursor
    let required := !l.inFlow && l.blocks.head? = some c.column
    return { l with candidates :=
      ⟨l.tokens.length, l.depth, required, c.index, c.line, c.column⟩ :: l.candidates }
  else .ok l

/-- Puts tokens in front of a candidate. -/
def announce (l : Lexer) (c : Candidate) (ts : List Token) : Lexer :=
  { l with tokens := l.tokens.take c.position ++ ts ++ l.tokens.drop c.position }

/-! ### Tokens -/

/-- Moves to the next token. A key can start on a new line outside of flow collections. -/
def skipGap (l : Lexer) : Lexer :=
  let n := Cursor.gapLength false l.cursor.rest
  let broken := (l.cursor.rest.take n).any isBreak
  { l.advance n with keyAllowed := l.keyAllowed || (!l.inFlow && broken) }

/-- The start or end of a document. -/
def documentMarker (l : Lexer) (token : Token) : Except Fault Lexer := do
  let l ← l.closeAll.forgetHere
  return ((l.allowKey false).advance 3).push [token]

/-- The start of a flow collection. -/
def flowStart (l : Lexer) (token : Token) : Except Fault Lexer := do
  let l ← l.remember
  return (({ l with depth := l.depth + 1, keyAllowed := true }).advance 1).push [token]

/-- The end of a flow collection. -/
def flowEnd (l : Lexer) (token : Token) : Except Fault Lexer := do
  let l ← l.forgetHere
  return (({ l with depth := l.depth - 1, keyAllowed := false }).advance 1).push [token]

/-- The comma of a flow collection. -/
def flowEntry (l : Lexer) : Except Fault Lexer := do
  let l ← l.forgetHere
  return ((l.allowKey true).advance 1).push [.flowEntry]

/-- Opens a block for a token that starts here, which needs a place where a key can start. -/
def openHere (l : Lexer) (token : Token) : Except Fault Lexer :=
  if l.inFlow then .ok l
  else if l.keyAllowed then .ok (l.openBlock l.cursor.column token)
  else .error .documentMalformed

/-- The dash of a block sequence. -/
def blockEntry (l : Lexer) : Except Fault Lexer := do
  let l ← (← l.openHere .blockSequenceStart).forgetHere
  return ((l.allowKey true).advance 1).push [.blockEntry]

/-- The mark of a key. -/
def explicitKey (l : Lexer) : Except Fault Lexer := do
  let l ← (← l.openHere .blockMappingStart).forgetHere
  return ((l.allowKey (!l.inFlow)).advance 1).push [.key]

/-- The colon of a value. -/
def value (l : Lexer) : Except Fault Lexer :=
  match l.candidates.find? fun c => c.depth = l.depth with
  | some c =>
      let opens := !l.inFlow && l.opensBlock c.column
      let l := { l with candidates := l.candidates.filter fun c => c.depth ≠ l.depth }
      let l :=
        if opens then
          { l.announce c [.blockMappingStart, .key] with blocks := c.column :: l.blocks }
        else l.announce c [.key]
      .ok (((l.allowKey false).advance 1).push [.value])
  | none => do
      let l ← (← l.openHere .blockMappingStart).forgetHere
      return ((l.allowKey (!l.inFlow)).advance 1).push [.value]

/-- A tag. -/
def tag (l : Lexer) : Except Fault Lexer := do
  let l ← l.remember
  let (tag, rest) ← Tag.read l.cursor.rest.tail
  return { (l.allowKey false).push [.tag tag] with cursor := l.cursor.advanceTo rest }

/-- A quoted scalar, read by the given function from behind its opening quote. -/
def quoted (l : Lexer) (read : List Char → Except Fault (List Char × List Char)) :
    Except Fault Lexer := do
  let l ← l.remember
  let (text, rest) ← read l.cursor.rest.tail
  return { (l.allowKey false).push [.scalar (String.ofList text) false] with
    cursor := l.cursor.advanceTo rest }

/-- The least column of the further lines of a plain scalar. -/
def plainIndent (l : Lexer) : Nat := match l.blocks with
  | [] => 0
  | column :: _ => column + 1

/-- A plain scalar. -/
def plain (l : Lexer) : Except Fault Lexer := do
  let l ← l.remember
  let reading := Plain.scan l.inFlow l.plainIndent l.cursor
  return { (l.allowKey reading.breaks).push [.scalar (String.ofList reading.text) true] with
    cursor := reading.cursor }

/-- Whether a character has a meaning of its own at the start of a token. -/
def isIndicator (c : Char) : Bool := "-?:,[]\x7b\x7d#&*!|>'\"%@`".toList.contains c

/-- Whether a plain scalar starts with a character before another. -/
def startsPlain (l : Lexer) (c : Char) (next : Option Char) : Bool :=
  !(isIndicator c || isSpace c || isBreak c) ||
    (!endsWord next && (c = '-' || (!l.inFlow && (c = '?' || c = ':'))))

/-- The token that starts with a character. -/
def dispatch (l : Lexer) (c : Char) (next : Option Char) : Except Fault Lexer :=
  if l.cursor.atMarker '-' then l.documentMarker .documentStart
  else if l.cursor.atMarker '.' then l.documentMarker .documentEnd
  else if c = '[' then l.flowStart .flowSequenceStart
  else if c = '\x7b' then l.flowStart .flowMappingStart
  else if c = ']' then l.flowEnd .flowSequenceEnd
  else if c = '\x7d' then l.flowEnd .flowMappingEnd
  else if c = ',' then l.flowEntry
  else if c = '-' && endsWord next then l.blockEntry
  else if c = '?' && (l.inFlow || endsWord next) then l.explicitKey
  else if c = ':' && (l.inFlow || endsWord next) then l.value
  else if c = '!' then l.tag
  else if c = '\'' then l.quoted Quoted.readSingle
  else if c = '"' then l.quoted Quoted.readDouble
  else if l.startsPlain c next then l.plain
  else .error .documentMalformed

/-- Reads all tokens, at most as many as given. -/
def run : Nat → Lexer → Except Fault (List Token)
  | 0, _ => .error .documentMalformed
  | n + 1, l => do
      let l ← l.skipGap.forgetStale
      let l := l.closeBlocks l.cursor.column
      match l.cursor.rest with
      | [] => return (← l.closeAll.forgetHere).tokens
      | c :: cs => run n (← l.dispatch c cs.head?)

end Lexer

/-- The tokens of a text. -/
def Token.ofText (cs : List Char) : Except Fault (List Token) :=
  Lexer.run (cs.length + 1) (Lexer.start cs)

end Corridor.Yaml
