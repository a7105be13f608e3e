import Corridor.Yaml.Node
import Corridor.Yaml.Scalar
import Corridor.Yaml.Token.Lexer

/-!
# Documents

A text that holds one document at most stands for a value. Where several scalars of a document
have no value, the fault is that of the outermost; among those of one depth the first counts.
-/

namespace Corridor.Yaml

namespace Node

/-- Whether a node that is not a scalar can have a tag. -/
def isOpen (tag? : Option Tag) : Bool := tag?.all (· = .open)

/-- Whether a node by itself has a value. A key has to be a scalar. -/
def inspect (isKey : Bool) : Node → Except Fault Unit
  | scalar tag? plain text => do
      let _ ← Scalar.value tag? plain text
  | sequence tag? _ | mapping tag? _ =>
      if isKey || !isOpen tag? then .error .documentMalformed else .ok ()

/-- The nodes directly inside a node, each with whether it is a key. -/
def children : Node → List (Bool × Node)
  | scalar .. => []
  | sequence _ items => items.map (false, ·)
  | mapping _ entries => entries.flatMap fun e => [(true, e.1), (false, e.2)]

/-- Inspects the given nodes, and then those inside them, at most as deep as given. -/
def inspectLevels : Nat → List (Bool × Node) → Except Fault Unit
  | 0, _ => .ok ()
  | _, [] => .ok ()
  | depth + 1, nodes => do
      nodes.forM fun n => inspect n.1 n.2
      inspectLevels depth (nodes.flatMap fun n => children n.2)

mutual

/-- The value of a node all of whose parts have one. -/
def value : Node → Datum
  | scalar tag? plain text => match Scalar.value tag? plain text with
    | .ok d => d
    | .error _ => .null
  | sequence _ items => .list (values items)
  | mapping _ entries => .map (setEntries [] entries)

/-- The values of a list of nodes. -/
def values : List Node → List Datum
  | [] => []
  | n :: ns => value n :: values ns

/-- Sets the values of entries in turn. -/
def setEntries (es : List (Datum × Datum)) : List (Node × Node) → List (Datum × Datum)
  | [] => es
  | (k, v) :: ns => setEntries (Datum.setEntry (value k) (value v) es) ns

end

end Node

/-- The text without the mark that it may begin with. -/
def dropMark : List Char → List Char
  | c :: cs => if c = byteOrderMark then cs else c :: cs
  | [] => []

/-- The value of a text; null for a text without a document. -/
def read (text : String) : Except Fault Datum := do
  let cs := unifyBreaks text.toList
  if !cs.all isAllowed then .error .documentMalformed
  let tokens ← Token.ofText (dropMark cs)
  match ← Node.ofTokens? tokens with
  | none => return .null
  | some root => do
      Node.inspectLevels (tokens.length + 1) [(false, root)]
      return root.value

end Corridor.Yaml
