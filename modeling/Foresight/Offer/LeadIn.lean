import Foresight.Text.Cut

/-!
# The lead-in of a line

The gesture that completes a statement is taken only where a statement could begin: the caret has
nothing but spaces and tabs before it on its line, and the line either ends at the caret or goes on
with such white space. At the very start of a line anything may follow.
-/

namespace Foresight

/-- The white space that a line is indented with. -/
def isIndent (c : Char) : Bool := c == ' ' || c == '\t'

/-- The characters after the last line feed. -/
def lastLine (text : List Char) : List Char :=
  (text.reverse.takeWhile (· != '\n')).reverse

/-- The characters up to the first line break. -/
def firstLine (text : List Char) : List Char :=
  text.takeWhile fun c => c != '\n' && c != '\r'

/-- Whether the caret stands in the lead-in of its line. A caret inside a character or outside the
text stands nowhere. -/
def isInLeadIn (text : String) (caret : Nat) : Bool :=
  match Text.slice? text 0 caret, Text.slice? text caret text.utf8ByteSize with
  | some before, some after =>
    let indent := lastLine before.toList
    let rest := firstLine after.toList
    indent.all isIndent && (indent.isEmpty || (rest.head?.map isIndent).getD true)
  | _, _ => false

end Foresight
