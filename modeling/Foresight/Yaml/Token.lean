import Foresight.Yaml.Tag

/-!
# Tokens of YAML

What a document is made of, in the order of its structure: where collections in block style begin
and end is told by tokens of their own, and a key has its token in front of it, although both show
only when the text goes on.
-/

namespace Foresight.Yaml

/-- How a scalar is written, as far as its meaning depends on it. -/
inductive Style where
  | plain
  | quoted
  | literal
  | folded
  deriving DecidableEq, Inhabited

inductive Token where
  | directive (directive : Directive)
  | documentStart
  | documentEnd
  | blockSequence
  | blockMapping
  | blockEnd
  | flowSequence
  | flowSequenceEnd
  | flowMapping
  | flowMappingEnd
  | blockEntry
  | flowEntry
  | key
  | value
  | alias (name : String)
  | anchor (name : String)
  | tag (tag : Tag)
  | scalar (style : Style) (text : String)
  deriving DecidableEq, Inhabited

end Foresight.Yaml
