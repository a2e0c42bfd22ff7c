import Foresight.Code.Span
import Foresight.Text.Cut

/-!
# Syntax trees

The syntax tree of a C# file, as a parser gives it: every node has a kind, a range of the source,
and the field of its parent that it fills, if any. Tokens are unnamed nodes; comments are named ones
that may stand anywhere.
-/

namespace Foresight.CSharp

structure Node where
  kind : String
  isNamed : Bool
  /-- The field of the parent that the node fills, empty for none. -/
  field : String
  start : Nat
  stop : Nat
  children : List Node

namespace Node

instance : Inhabited Node := ⟨⟨"", false, "", 0, 0, []⟩⟩

def span (n : Node) : Span := ⟨n.start, n.stop⟩

def namedChildren (n : Node) : List Node := n.children.filter (·.isNamed)

/-- The first child that fills a field. -/
def child? (n : Node) (field : String) : Option Node := n.children.find? (·.field == field)

/-- The first named child of a kind. -/
def namedChild? (n : Node) (kind : String) : Option Node :=
  n.namedChildren.find? (·.kind == kind)

/-- The child that fills a field, or else the first named child of a kind. -/
def childOr? (n : Node) (field kind : String) : Option Node :=
  n.child? field <|> n.namedChild? kind

/-- The source text of a node; empty when its range does not fit the source. -/
def text (n : Node) (source : String) : String :=
  (Text.slice? source n.start n.stop).getD ""

end Node

end Foresight.CSharp
