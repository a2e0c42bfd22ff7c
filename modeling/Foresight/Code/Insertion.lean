import Foresight.Code.Span
import Foresight.Text.Cut

/-!
# Insertion points

Where a template goes, said against the unmodified text: directly at an offset, into a block that
replaces an empty body, or into a block that is wrapped around an embedded statement.
-/

namespace Foresight

inductive InsertionEdit where
  | insert
  /-- Replace an empty statement, or nothing, with a new block. -/
  | synthesizeBlock (replaced : Span)
  /-- Wrap the embedded statement into a new block. -/
  | wrapInBlock (wrapped : Span)
  deriving DecidableEq, Inhabited

/-- Where a synthesized block begins. -/
def InsertionEdit.anchor : InsertionEdit → Nat
  | .insert => 0
  | .synthesizeBlock replaced => replaced.start
  | .wrapInBlock wrapped => wrapped.start

structure InsertionPoint where
  offset : Nat
  edit : InsertionEdit
  deriving DecidableEq, Inhabited

namespace InsertionPoint

def direct (offset : Nat) : InsertionPoint := ⟨offset, .insert⟩

/-- The point just inside a block that the edit makes. -/
def ofEdit (edit : InsertionEdit) : InsertionPoint := ⟨edit.anchor, edit⟩

def around? (text : String) (span : Span) : Option (String × String) := do
  if span.start > span.stop then none
  else
    let before ← Text.slice? text 0 span.start
    let after ← Text.slice? text span.stop text.utf8ByteSize
    return (before, after)

/-- The text with the snippet inserted; `none` when the point does not fit the text. -/
def apply (point : InsertionPoint) (text snippet : String) : Option String :=
  match point.edit with
  | .insert => do
    let (before, after) ← around? text (.point point.offset)
    return before ++ snippet ++ after
  | .synthesizeBlock replaced => do
    let (before, after) ← around? text replaced
    return before ++ "\x7b" ++ snippet ++ " \x7d" ++ after
  | .wrapInBlock wrapped => do
    let (before, after) ← around? text wrapped
    let inner ← Text.slice? text wrapped.start wrapped.stop
    return before ++ "\x7b" ++ snippet ++ " " ++ inner ++ " \x7d" ++ after

end InsertionPoint

end Foresight
