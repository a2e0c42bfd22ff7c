import Foresight.Code.SourceFile
import Foresight.Text.Blank

/-!
# Lookup by position

Finding the statement at a line, around an offset or before an offset. Blocks never answer: a
position names a statement that could be followed by another. Since the walk visits an outer
statement before what it holds, the last hit around an offset is the innermost one, and the first
hit among those that end together is the outermost.

A user counts lines and columns from one, and columns in characters; a source model counts bytes.
-/

namespace Foresight

/-! ## Carets -/

/-- How many bytes some characters take. -/
def byteLength (text : List Char) : Nat := (String.ofList text).utf8ByteSize

/-- The byte offset of a line and a column. A column behind the end of the line is the end of it. -/
def caretOffset? (text : String) (line column : Nat) : Option Nat :=
  if line = 0 then none
  else
    let lines := Text.pieces (· == '\n') text.toList
    lines[line - 1]?.map fun found =>
      (lines.take (line - 1)).foldr (fun l offset => byteLength l + 1 + offset)
        (byteLength (found.take (column - 1)))

/-! ## Statements -/

namespace SourceFile

/-- The number of line feeds among some bytes. -/
def lineFeeds (bytes : List UInt8) : Nat := bytes.count 0x0a

/-- The line, counted from 1, of an offset. -/
def lineOf (file : SourceFile) (offset : Nat) : Nat :=
  lineFeeds (file.text.toUTF8.toList.take offset) + 1

/-- Whether a statement was written by the author and is no block. -/
def isAnchor (s : Statement) : Bool :=
  !s.kind.isBlock && s.synthesized.isNone

def walked (file : SourceFile) : List (StatementId × Statement) :=
  file.walk.filterMap fun id => (file.get? id).map (id, ·)

/-- The first statement, in walk order, that starts on a line. -/
def statementAtLine? (file : SourceFile) (line : Nat) : Option StatementId :=
  (file.walked.find? fun (_, s) => isAnchor s && file.lineOf s.span.start == line).map (·.1)

/-- The innermost statement around an offset. -/
def statementAtOffset? (file : SourceFile) (offset : Nat) : Option StatementId :=
  (file.walked.filter fun (_, s) => !s.kind.isBlock && s.span.contains offset).getLast?.map (·.1)

/-- Keeps the earlier of two candidates unless the later one ends further on. -/
def laterEnd (best : Option (StatementId × Statement)) (candidate : StatementId × Statement) :
    Option (StatementId × Statement) :=
  match best with
  | none => some candidate
  | some b => if b.2.span.stop < candidate.2.span.stop then some candidate else some b

/-- The statement that ends last at or before an offset, the outermost of several. -/
def statementBeforeOffset? (file : SourceFile) (offset : Nat) : Option StatementId :=
  ((file.walked.filter fun (_, s) => isAnchor s && s.span.stop ≤ offset).foldl laterEnd none).map
    (·.1)

end SourceFile

end Foresight
