import Corridor.Yaml.Tag

/-!
# Tokens

The tokens of a document. Block collections are marked by their indentation in the text; their
tokens say where they start and end.
-/

namespace Corridor.Yaml

/-- A token. -/
inductive Token where
  | documentStart
  | documentEnd
  | blockSequenceStart
  | blockMappingStart
  | blockEnd
  | flowSequenceStart
  | flowSequenceEnd
  | flowMappingStart
  | flowMappingEnd
  /-- The dash of a block sequence. -/
  | blockEntry
  /-- The comma of a flow collection. -/
  | flowEntry
  /-- A key follows. -/
  | key
  /-- A value follows. -/
  | value
  | tag (tag : Tag)
  | scalar (text : String) ( plain : Bool)
deriving Repr, DecidableEq, Inhabited

end Corridor.Yaml
