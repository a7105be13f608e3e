import Corridor.Yaml.Token.Basic

/-!
# Nodes

The nodes of a document: scalars, sequences and mappings, each perhaps with a tag. They are read
from tokens by a grammar in which every choice is made by the next token. A node may be left out
where a value, a key or an item is expected; it is an empty scalar then.
-/

namespace Corridor.Yaml

/-- A node. -/
inductive Node where
  | scalar (tag? : Option Tag) ( plain : Bool) (text : String)
  | sequence (tag? : Option Tag) (items : List Node)
  | mapping (tag? : Option Tag) (entries : List (Node × Node))
deriving Inhabited

namespace Node

/-- A node that is left out. -/
def missing : Node := scalar none true ""

/-- The kinds of nodes that a place admits. -/
inductive Place where
  /-- Inside a flow collection. -/
  | flow
  /-- Anywhere else. -/
  | block
  /-- A key or a value of a block mapping, which can be a sequence that is not indented. -/
  | entry
deriving DecidableEq

/-- A tag, if one comes first. -/
def takeTag : List Token → Option Tag × List Token
  | .tag t :: ts => (some t, ts)
  | ts => (none, ts)

/-- Expects a given token. -/
def expect (t : Token) : List Token → Except Fault (List Token)
  | u :: ts => if t = u then .ok ts else .error .documentMalformed
  | [] => .error .documentMalformed

/-- Whether one of the given tokens comes first. -/
def startsWith (options : List Token) (ts : List Token) : Bool :=
  ts.head?.any options.contains

mutual

/-- Reads a node, with at most as many nested steps as given. -/
def read : Nat → Place → List Token → Except Fault (Node × List Token)
  | 0, _, _ => .error .documentMalformed
  | n + 1, place, tokens => do
      let (tag?, tokens) := takeTag tokens
      match tokens with
      | .scalar text plain :: ts => return (scalar tag? plain text, ts)
      | .flowSequenceStart :: ts => do
          let (items, ts) ← readFlowItems n true ts
          return (sequence tag? items, ts)
      | .flowMappingStart :: ts => do
          let (entries, ts) ← readFlowEntries n true ts
          return (mapping tag? entries, ts)
      | t :: ts =>
          if t = .blockEntry && place = .entry then do
            let (items, ts) ← readItems n (t :: ts)
            return (sequence tag? items, ts)
          else if t = .blockSequenceStart && place ≠ .flow then do
            let (items, ts) ← readItems n ts
            return (sequence tag? items, ← expect .blockEnd ts)
          else if t = .blockMappingStart && place ≠ .flow then do
            let (entries, ts) ← readEntries n ts
            return (mapping tag? entries, ← expect .blockEnd ts)
          else if tag?.isSome then return (scalar tag? true "", t :: ts)
          else .error .documentMalformed
      | [] => if tag?.isSome then return (scalar tag? true "", []) else .error .documentMalformed

/-- Reads a node that is left out if one of the given tokens comes next. -/
def readUnless : Nat → List Token → Place → List Token → Except Fault (Node × List Token)
  | 0, _, _, _ => .error .documentMalformed
  | n + 1, enders, place, tokens =>
      if startsWith enders tokens then .ok (missing, tokens) else read n place tokens

/-- Reads a value with its mark; both are left out together. -/
def readValue : Nat → List Token → Place → List Token → Except Fault (Node × List Token)
  | 0, _, _, _ => .error .documentMalformed
  | n + 1, enders, place, tokens => match tokens with
    | .value :: ts => readUnless n enders place ts
    | ts => .ok (missing, ts)

/-- Reads the items of a block sequence. -/
def readItems : Nat → List Token → Except Fault (List Node × List Token)
  | 0, _ => .error .documentMalformed
  | n + 1, tokens => match tokens with
    | .blockEntry :: ts => do
        let (item, ts) ← readUnless n [.blockEntry, .key, .value, .blockEnd] .block ts
        let (items, ts) ← readItems n ts
        return (item :: items, ts)
    | ts => .ok ([], ts)

/-- Reads the entries of a block mapping. -/
def readEntries : Nat → List Token → Except Fault (List (Node × Node) × List Token)
  | 0, _ => .error .documentMalformed
  | n + 1, tokens => match tokens with
    | .key :: ts => do
        let (k, ts) ← readUnless n [.key, .value, .blockEnd] .entry ts
        let (v, ts) ← readValue n [.key, .value, .blockEnd] .entry ts
        let (entries, ts) ← readEntries n ts
        return ((k, v) :: entries, ts)
    | ts => .ok ([], ts)

/-- Reads the items of a flow sequence up to its end. An item that is announced as a key is a
mapping of one entry. -/
def readFlowItems : Nat → Bool → List Token → Except Fault (List Node × List Token)
  | 0, _, _ => .error .documentMalformed
  | n + 1, first, tokens => match tokens with
    | .flowSequenceEnd :: ts => .ok ([], ts)
    | ts => do
        let ts ← if first then pure ts else expect .flowEntry ts
        match ts with
        | .flowSequenceEnd :: ts => return ([], ts)
        | .key :: ts => do
            let (k, ts) ← readUnless n [.value, .flowEntry, .flowSequenceEnd] .flow ts
            let (v, ts) ← readValue n [.flowEntry, .flowSequenceEnd] .flow ts
            let (items, ts) ← readFlowItems n false ts
            return (mapping none [(k, v)] :: items, ts)
        | ts => do
            let (item, ts) ← read n .flow ts
            let (items, ts) ← readFlowItems n false ts
            return (item :: items, ts)

/-- Reads the entries of a flow mapping up to its end. A node that is not announced as a key is
one without a value. -/
def readFlowEntries : Nat → Bool → List Token → Except Fault (List (Node × Node) × List Token)
  | 0, _, _ => .error .documentMalformed
  | n + 1, first, tokens => match tokens with
    | .flowMappingEnd :: ts => .ok ([], ts)
    | ts => do
        let ts ← if first then pure ts else expect .flowEntry ts
        match ts with
        | .flowMappingEnd :: ts => return ([], ts)
        | .key :: ts => do
            let (k, ts) ← readUnless n [.value, .flowEntry, .flowMappingEnd] .flow ts
            let (v, ts) ← readValue n [.flowEntry, .flowMappingEnd] .flow ts
            let (entries, ts) ← readFlowEntries n false ts
            return ((k, v) :: entries, ts)
        | ts => do
            let (k, ts) ← read n .flow ts
            let (entries, ts) ← readFlowEntries n false ts
            return ((k, missing) :: entries, ts)

end

/-- The nesting that suffices to read a list of tokens. -/
def depthFor (ts : List Token) : Nat := 4 * ts.length + 4

/-- Expects that nothing is left but ends of the document. -/
def expectEnd (ts : List Token) : Except Fault Unit :=
  if ts.all (· = .documentEnd) then .ok () else .error .documentMalformed

/-- Reads the root of a document that is marked, which may be left out. -/
def readRoot (ts : List Token) : Except Fault (Node × List Token) :=
  if ts.isEmpty then .ok (missing, ts)
  else readUnless (depthFor ts) [.documentStart, .documentEnd] .block ts

/-- The root of the only document in a list of tokens, if there is one. -/
def ofTokens? : List Token → Except Fault (Option Node)
  | [] => .ok none
  | .documentStart :: ts => do
      let (root, ts) ← readRoot ts
      expectEnd ts
      return some root
  | ts => do
      let (root, ts) ← read (depthFor ts) .block ts
      expectEnd ts
      return some root

end Node

end Corridor.Yaml
