import Foresight.Offer.Invocation
import Foresight.Code.Insertion
import Foresight.Failure

/-!
# Inserting into a buffer

A buffer takes an invocation without asking anybody: each field takes its default, and the caret
goes to the mark in the text, or behind the text without one. An invocation that does not fit leaves
the buffer as it was.
-/

namespace Foresight

/-- What a field takes when nobody is asked: the first of its choices, or its name. -/
def defaultFieldValue (name suggestion : String) : String :=
  match (Text.stripLead? "list(\"" suggestion).bind (Text.stripTail? "\")") with
  | none => name
  | some choices =>
    let first := (Text.splitAt ',' choices).headD ""
    if first.isEmpty then name else first

structure Buffer where
  text : String
  /-- Where the last insertion left the caret. -/
  caret : Option Nat
  deriving DecidableEq, Inhabited

namespace Buffer

/-- The text of an invocation with every field filled. -/
def fill (invocation : Invocation) : String :=
  invocation.fields.entries.foldl (fun text (name, suggestion) =>
    Text.replace (Template.placeholder name) (defaultFieldValue name suggestion) text)
    invocation.text

/-- Where the caret goes in a filled text that is inserted without its marks. -/
def caretIn (filled snippet : String) : Nat :=
  match Text.cut? Template.endMarker filled with
  | some (before, _) => before.utf8ByteSize
  | none => snippet.utf8ByteSize

/-- Where an insertion begins in the new text: behind the brace of a block that was made for it. -/
def snippetStart (point : InsertionPoint) : Nat :=
  match point.edit with
  | .insert => point.offset
  | _ => point.offset + 1

def execute (buffer : Buffer) (invocation : Invocation) (point : InsertionPoint) :
    Outcome Buffer :=
  let filled := fill invocation
  let snippet := Text.replace Template.endMarker "" filled
  match point.apply buffer.text snippet with
  | some text => .ok ⟨text, some (snippetStart point + caretIn filled snippet)⟩
  | none =>
    .error (.validationField
      ("Insertion point " ++ toString point.offset ++ " is outside the buffer") "offset")

end Buffer

end Foresight
