import Foresight.CSharp.Node
import Foresight.Text.Blank
import Foresight.Text.Number

/-!
# Syntax trees as rows

A syntax tree can be written down as one row per node, in the order in which the nodes begin, a
parent before its children: each row says how deep its node lies. Read from the end, the children of
a node are then the deeper nodes right behind it.
-/

namespace Foresight.CSharp

structure Row where
  /-- How deep the node lies; the root lies at depth zero. -/
  depth : Nat
  kind : String
  isNamed : Bool
  field : String
  start : Nat
  stop : Nat
  deriving DecidableEq, Inhabited

namespace Row

/-- A row as a line of text, with tabs between its entries. -/
def ofLine? (line : String) : Option Row :=
  match Text.splitAt '\t' line with
  | [depth, kind, named, field, start, stop] => do
    return ⟨← Text.natural? depth, kind, named == "1", field, ← Text.natural? start,
      ← Text.natural? stop⟩
  | _ => none

/-- Puts the node of a row in front of the nodes behind it, and takes the deeper ones in. -/
def add (row : Row) (behind : List (Nat × Node)) : List (Nat × Node) :=
  let below := behind.takeWhile (row.depth < ·.1)
  (row.depth, ⟨row.kind, row.isNamed, row.field, row.start, row.stop, below.map (·.2)⟩) ::
    behind.dropWhile (row.depth < ·.1)

end Row

namespace Node

def ofRows (rows : List Row) : Node :=
  match rows.foldr Row.add [] with
  | (_, root) :: _ => root
  | [] => default

/-- The tree of a text with nothing in it. -/
def ofNothing (text : String) : Node :=
  ⟨"compilation_unit", true, "", 0, text.utf8ByteSize, []⟩

end Node

end Foresight.CSharp
