import Foresight.Ranking.Aggregate
import Foresight.Template.Expression

/-!
# Invocations

A suggestion that has been chosen becomes an invocation: parameters captured at the cursor take the
place of their placeholders, and every other placeholder stays a field that is still to be filled.
The label of an offer shows the same text on one line.
-/

namespace Foresight

open Template

/-- Replaces the placeholder of each parameter by its value, one parameter after the other. -/
def substituteParameters (template : String) (parameters : Fields) : String :=
  parameters.entries.foldl (fun text (name, value) => Text.replace (placeholder name) value text)
    template

/-- Runs of spaces as single ones. -/
def collapseSpaces : List Char → List Char
  | ' ' :: ' ' :: rest => collapseSpaces (' ' :: rest)
  | c :: rest => c :: collapseSpaces rest
  | [] => []

namespace Suggestion

/-- The suggestion on one line, for showing only: fields show their names, and braces and the mark
of the caret are left out. -/
def presentation (s : Suggestion) (parameters : Fields) : String :=
  let text := s.fields.names.foldl (fun text name => Text.replace (placeholder name) name text)
    (substituteParameters s.template parameters)
  let unmarked := (Text.replace endMarker "" text).toList.filter fun c => c != '\x7b' && c != '\x7d'
  Text.trim (String.ofList (collapseSpaces unmarked))

def label (s : Suggestion) (parameters : Fields) : String :=
  "Insert: " ++ s.presentation parameters

end Suggestion

/-- A template that is ready to be inserted. -/
structure Invocation where
  text : String
  /-- The placeholders that are left, with their suggestions. -/
  fields : Fields
  deriving DecidableEq, Inhabited

/-- The invocation of a suggestion; on a new line if it is inserted behind something. -/
def Suggestion.invoke (s : Suggestion) (parameters : Fields) (onNewLine : Bool) : Invocation :=
  let text := if onNewLine then "\n" ++ s.template else s.template
  ⟨substituteParameters text parameters, s.fields⟩

end Foresight
