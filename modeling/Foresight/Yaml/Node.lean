import Foresight.Yaml.Token
import Foresight.Yaml.Word

/-!
# YAML nodes

A document is a tree of scalars, sequences and mappings in which an alias stands for a node that has
been given a name. What a name stands for is looked up when a value is asked for, not before
(`Document.follow`), so a node may hold an alias to itself.

A value is asked of a node by its kind: `natural?` and `truth?` have an answer for some words only,
`text?` for every scalar, `fields?` for what can be taken as a record.
-/

namespace Foresight.Yaml

inductive Node where
  | scalar (tag : Option String) (style : Style) (text : String)
  | sequence (items : List Node)
  | mapping (entries : List (Node × Node))
  | alias (anchor : Nat)
  deriving Inhabited

/-- A value that is left out. -/
def Node.absent : Node := .scalar none .plain ""

structure Document where
  root : Node
  /-- The nodes that an alias can stand for, by the number that it holds. -/
  anchors : List (Nat × Node)

namespace Document

/-- The node that an alias stands for; any other node stands for itself. -/
def follow (d : Document) : Node → Node
  | .alias anchor => (d.anchors.lookup anchor).getD (.alias anchor)
  | node => node

/-- The text of a scalar that may be a number or a truth value: it is a word, or a literal block
with the tag of that kind. -/
def word? (d : Document) (kind : String) (node : Node) : Option String :=
  match d.follow node with
  | .scalar _ .plain text => some text
  | .scalar tag .literal text => if tag == some kind then some text else none
  | _ => none

def natural? (d : Document) (node : Node) : Option Nat :=
  (d.word? Tag.int node).bind Yaml.natural?

def truth? (d : Document) (node : Node) : Option Bool :=
  (d.word? Tag.bool node).bind Yaml.truth?

/-- The text of a scalar, whatever it may stand for. -/
def text? (d : Document) (node : Node) : Option String :=
  match d.follow node with
  | .scalar _ _ text => some text
  | _ => none

/-- The text of a scalar, or nothing where a word says so. A tag says whether a word is nothing, and
then has to be right. -/
def optionalText? (d : Document) (node : Node) : Option (Option String) :=
  match d.follow node with
  | .scalar none .plain text => some (if text.isEmpty || isNull text then none else some text)
  | .scalar (some tag) .plain text =>
    if tag != Tag.null then some (some text) else if isNull text then some none else none
  | .scalar _ _ text => some (some text)
  | _ => none

/-- The texts of a sequence of scalars; a value that is left out has none. -/
def texts? (d : Document) (node : Node) : Option (List String) :=
  match d.follow node with
  | .sequence items => items.mapM d.text?
  | .scalar _ .plain "" => some []
  | _ => none

/-- The fields of a record with these names: those of a mapping, whose other entries are passed
over, or the items of a sequence in the order of the names. No field comes twice; a value that is
left out has none. -/
def fields? (d : Document) (names : List String) (node : Node) :
    Option (List (String × Node)) :=
  match d.follow node with
  | .mapping entries => do
    let entries ← entries.mapM fun (key, value) => (d.text? key).map (·, value)
    let fields := entries.filter fun (name, _) => names.contains name
    if (fields.map (·.1)).Nodup then some fields else none
  | .sequence items => if items.length ≤ names.length then some (names.zip items) else none
  | .scalar _ .plain "" => some []
  | _ => none

end Document

end Foresight.Yaml
